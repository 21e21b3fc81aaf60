import BaseAnvil.Forks.Revert

/-!
# BaseAnvil.Forks.Select

What selecting another fork does to the entries of one account.

While a fork is active, the accounts that persist are loaded into its cache, their slots are
written over those that the target has, the caller is inserted, and then both the journaled
state and the cache of the target take over what the active ones have. Each of these is a
loop over the persistent accounts, and each treats an account on its own, so all that is
said here is about the entries of one address.
-/

namespace BaseAnvil.Forks

open Lib Chain BackendInner HashMap Finmap CacheDb ForkDb
open Pool (B256 Address)

namespace Backend

variable {host : Host} {ord : DbOrder} {a : Address}

/-! ### The loop over the persistent accounts -/

theorem syncStorage_singleton (account : Account) (key val : U256) :
    (syncStorage account [(key, val)]).info = account.info ∧
    (syncStorage account [(key, val)]).created = account.created ∧
    ∀ k, (syncStorage account [(key, val)]).storage.lookup k =
      (account.storage.lookup k).map fun slot =>
        if k = key then { slot with presentValue := val } else slot := by
  simp only [syncStorage, List.foldl_cons, List.foldl_nil]
  cases h : account.storage.lookup key with
  | none =>
    refine ⟨rfl, rfl, fun k => ?_⟩
    by_cases hk : k = key
    · rw [hk, h]
      rfl
    · simp [hk]
  | some slot =>
    refine ⟨rfl, rfl, fun k => ?_⟩
    rw [lookup_insert_ite]
    by_cases hk : k = key
    · subst hk
      rw [h]
      simp
    · simp [hk]

/-- The slots that the account has get the values given for them. -/
theorem syncStorage_spec (account : Account) (slots : List (U256 × U256)) :
    (syncStorage account slots).info = account.info ∧
    (syncStorage account slots).created = account.created ∧
    ∀ k, (syncStorage account slots).storage.lookup k =
      (account.storage.lookup k).map fun slot =>
        { slot with presentValue := (lastValue slots k).getD slot.presentValue } := by
  induction slots using List.reverseRecOn with
  | nil =>
    refine ⟨rfl, rfl, fun k => ?_⟩
    cases h : account.storage.lookup k <;> simp [syncStorage, lastValue, h]
  | append_singleton slots e ih =>
    obtain ⟨key, val⟩ := e
    have happend : syncStorage account (slots ++ [(key, val)]) =
        syncStorage (syncStorage account slots) [(key, val)] := by
      simp [syncStorage]
    obtain ⟨hinfo, hcreated, hlookup⟩ := ih
    obtain ⟨hinfo', hcreated', hlookup'⟩ :=
      syncStorage_singleton (syncStorage account slots) key val
    rw [happend]
    refine ⟨hinfo'.trans hinfo, hcreated'.trans hcreated, fun k => ?_⟩
    rw [hlookup', hlookup]
    cases account.storage.lookup k with
    | none => rfl
    | some slot =>
      by_cases hk : k = key
      · simp [hk, lastValue_concat]
      · simp [hk, lastValue, Ne.symm hk]

theorem lastValue_entries {K V : Type} [DecidableEq K] (ord : IterOrder K) (m : HashMap K V)
    (k : K) :
    lastValue (entries ord m) k = m.lookup k := by
  have h := lookup_insertAll ∅ (entries ord m) k
  rw [insertAll_entries, lookup_empty, Option.or_none] at h
  exact h.symm

section

variable {acc : DbAccount} {d : ForkDb}

/-- Loading an account leaves those in the cache. -/
theorem lookup_loadAccount (host : Host) (address : Address)
    (h : d.cache.accounts.lookup a = some acc) :
    (host.loadAccount d address).2.cache.accounts.lookup a = some acc := by
  by_cases hne : a = address
  · rw [← hne, host.loadAccount_of_some h]
    exact h
  · rw [host.loadAccount_of_ne hne]
    exact h

variable {fork : JournaledState}

/-- One round of the loop, for an account that is in the active cache. -/
theorem syncPersistent_cons (address : Address) (rest : List Address)
    (h : d.cache.accounts.lookup a = some acc) :
    ∃ fork', syncPersistent host ord d fork (address :: rest) =
        syncPersistent host ord (host.loadAccount d address).2 fork' rest ∧
      fork'.state.lookup a = if a = address then
          (fork.state.lookup a).map (syncStorage · (entries ord.slots acc.storage))
        else fork.state.lookup a := by
  rw [syncPersistent]
  by_cases hne : a = address
  · subst hne
    rw [host.loadAccount_of_some h, if_pos rfl]
    cases hfork : fork.state.lookup a with
    | none => exact ⟨fork, rfl, hfork⟩
    | some account =>
      refine ⟨_, rfl, ?_⟩
      exact lookup_insert _
  · rw [if_neg hne]
    generalize host.loadAccount d address = loaded
    obtain ⟨_ | dbAccount, d'⟩ := loaded
    · exact ⟨fork, rfl, rfl⟩
    · dsimp only
      cases hfork : fork.state.lookup address with
      | none => exact ⟨fork, rfl, rfl⟩
      | some account =>
        refine ⟨_, rfl, ?_⟩
        exact lookup_insert_of_ne _ hne

/-- An account in the active cache stays there, and what the target has of it gets its slots. -/
theorem syncPersistent_spec {addresses : List Address} (hnodup : addresses.Nodup)
    (h : d.cache.accounts.lookup a = some acc) :
    (syncPersistent host ord d fork addresses).1.cache.accounts.lookup a = some acc ∧
    (syncPersistent host ord d fork addresses).2.state.lookup a =
      if a ∈ addresses then
        (fork.state.lookup a).map (syncStorage · (entries ord.slots acc.storage))
      else fork.state.lookup a := by
  induction addresses generalizing d fork with
  | nil => exact ⟨h, rfl⟩
  | cons address rest ih =>
    obtain ⟨hnotMem, hnodup⟩ := List.nodup_cons.mp hnodup
    obtain ⟨fork', heq, hfork'⟩ := @syncPersistent_cons host ord a acc d fork address rest h
    rw [heq]
    obtain ⟨hcache, hstate⟩ :=
      @ih (host.loadAccount d address).2 fork' hnodup (lookup_loadAccount host address h)
    refine ⟨hcache, ?_⟩
    rw [hstate, hfork']
    by_cases hne : a = address
    · simp [hne, hnotMem]
    · simp [hne]

end

/-! ### Merging -/

/-- The entry of the target after `mergeJournaledStateData`. -/
def mergedAccount : Option Account → Option Account → Option Account
  | none, fork => fork
  | some acc, none => some acc
  | some acc, some forkAccount =>
    some { acc with storage := forkAccount.storage.extend acc.storage }

/-- The entry of the target after `mergeDbAccountData`. -/
def mergedDbAccount : Option DbAccount → Option DbAccount → Option DbAccount
  | none, fork => fork
  | some acc, none => some acc
  | some acc, some forkAccount =>
    some { forkAccount with storage := forkAccount.storage.extend acc.storage }

theorem lookup_mergeJournaledStateData (active fork : JournaledState) :
    (mergeJournaledStateData address active fork).state.lookup a =
      if a = address then mergedAccount (active.state.lookup a) (fork.state.lookup a)
      else fork.state.lookup a := by
  unfold mergeJournaledStateData
  by_cases hne : a = address
  · subst hne
    rw [if_pos rfl]
    cases active.state.lookup a with
    | none => rfl
    | some acc =>
      cases fork.state.lookup a with
      | none => exact lookup_insert _
      | some forkAccount => exact lookup_insert _
  · rw [if_neg hne]
    cases active.state.lookup address with
    | none => rfl
    | some acc => exact lookup_insert_of_ne _ hne

theorem lookup_mergeDbAccountData (active fork : CacheDb) :
    (mergeDbAccountData address active fork).accounts.lookup a =
      if a = address then mergedDbAccount (active.accounts.lookup a) (fork.accounts.lookup a)
      else fork.accounts.lookup a := by
  unfold mergeDbAccountData
  by_cases hne : a = address
  · subst hne
    rw [if_pos rfl]
    cases active.accounts.lookup a with
    | none => rfl
    | some acc =>
      cases fork.accounts.lookup a with
      | none => exact lookup_insert _
      | some forkAccount => exact lookup_insert _
  · rw [if_neg hne]
    cases active.accounts.lookup address with
    | none => rfl
    | some acc => exact lookup_insert_of_ne _ hne

/-- Each account is merged on its own. -/
theorem mergeAccountData_spec {addresses : List Address} (hnodup : addresses.Nodup)
    (active : CacheDb) (activeJournaledState : JournaledState) (target : Fork) :
    (mergeAccountData addresses active activeJournaledState target).journaledState.state.lookup a =
      (if a ∈ addresses then mergedAccount (activeJournaledState.state.lookup a)
          (target.journaledState.state.lookup a)
        else target.journaledState.state.lookup a) ∧
    (mergeAccountData addresses active activeJournaledState target).db.cache.accounts.lookup a =
      if a ∈ addresses then mergedDbAccount (active.accounts.lookup a)
          (target.db.cache.accounts.lookup a)
        else target.db.cache.accounts.lookup a := by
  induction addresses generalizing target with
  | nil => exact ⟨rfl, rfl⟩
  | cons address rest ih =>
    obtain ⟨hnotMem, hnodup⟩ := List.nodup_cons.mp hnodup
    rw [mergeAccountData, List.foldl_cons]
    obtain ⟨hstate, haccounts⟩ := ih hnodup
      ⟨{ target.db with cache := mergeDbAccountData address active target.db.cache },
        mergeJournaledStateData address activeJournaledState target.journaledState⟩
    rw [mergeAccountData] at hstate haccounts
    rw [hstate, haccounts, lookup_mergeJournaledStateData, lookup_mergeDbAccountData]
    by_cases hne : a = address
    · simp [hne, hnotMem]
    · simp [hne]

/-! ### Selecting another fork -/

variable {b b' : Backend} {caller : Address} {env env' : Env}
  {active journaledState : JournaledState}

/-- Nothing but the caller is initialized, and only on a fork that was not selected before. -/
theorem initCaller_cases {callerAccount : Option Account} {target started : Fork}
    (h : initCaller host caller callerAccount target = (.ok (), started)) :
    started = target ∧ (callerAccount = none ∨ target.journaledState.depth ≠ 0) ∨
    ∃ acc info, callerAccount = some acc ∧ target.journaledState.depth = 0 ∧
      started.journaledState.state =
        target.journaledState.state.insert caller { acc with info := info } ∧
      ∀ a, a ≠ caller →
        started.db.cache.accounts.lookup a = target.db.cache.accounts.lookup a := by
  unfold initCaller at h
  by_cases hdepth : target.journaledState.depth = 0
  · rw [if_pos hdepth] at h
    cases callerAccount with
    | none =>
      cases h
      exact Or.inl ⟨rfl, Or.inl rfl⟩
    | some acc =>
      have hcache := fun a => @host.basic_of_ne target.db a caller
      generalize host.basic target.db caller = loaded at h hcache
      obtain ⟨_ | _ | info, d⟩ := loaded
      · cases h
      · cases h
      · cases h
        exact Or.inr ⟨acc, info, rfl, hdepth, rfl, hcache⟩
  · rw [if_neg hdepth] at h
    cases h
    exact Or.inl ⟨rfl, Or.inr hdepth⟩

/-- The fork that a local id stands for. -/
def targetFork (b : Backend) (id : LocalForkId) : Option Fork := do
  let forkId ← b.inner.issuedLocalForkIds.lookup id
  let idx ← b.inner.createdForks.lookup forkId
  b.inner.getFork idx

theorem exists_of_bind_eq_ok {ε α β : Type} {x : Except ε α} {f : α → Except ε β} {r : β}
    (h : (x >>= f) = .ok r) : ∃ y, x = .ok y ∧ f y = .ok r := by
  cases x with
  | error err => cases h
  | ok y => exact ⟨y, rfl, h⟩

variable {id : LocalForkId}

theorem lookup_of_ensureForkId {i : BackendInner} {forkId : ForkId}
    (h : i.ensureForkId id = .ok forkId) : i.issuedLocalForkIds.lookup id = some forkId := by
  unfold ensureForkId at h
  generalize i.issuedLocalForkIds.lookup id = found at h
  cases found <;> cases h
  rfl

variable {idx : ForkLookupIndex}

theorem lookup_of_ensureForkIndex {i : BackendInner} {id : ForkId}
    (h : i.ensureForkIndex id = .ok idx) : i.createdForks.lookup id = some idx := by
  unfold ensureForkIndex at h
  generalize i.createdForks.lookup id = found at h
  cases found <;> cases h
  rfl

variable {responses : SelectResponses}

theorem findFork_ok {forkEnv : Env} (h : b.findFork id responses = .ok (idx, forkEnv)) :
    b.targetFork id = b.inner.getFork idx := by
  obtain ⟨_, -, h⟩ := exists_of_bind_eq_ok h
  obtain ⟨forkId, hid, h⟩ := exists_of_bind_eq_ok h
  obtain ⟨idx', hidx, h⟩ := exists_of_bind_eq_ok h
  have hget : idx' = idx := by
    cases henv : responses.getEnv with
    | error err =>
      rw [henv] at h
      cases h
    | ok forkEnv =>
      rw [henv] at h
      cases forkEnv <;> cases h
      rfl
  simp [targetFork, lookup_of_ensureForkId hid, lookup_of_ensureForkIndex hidx, hget]

variable {activeIdx : ForkLookupIndex} {activeId : LocalForkId}

/-- What recording the journaled state of the active fork does. -/
theorem recordJournal_of_active (hactive : b.activeForkIds = some (activeId, activeIdx))
    {res : Except ForkError Unit}
    (h : b.recordJournal host ord idx caller active = some (res, b')) :
    ∃ activeFork target started, b.inner.getFork activeIdx = some activeFork ∧
      (b.inner.setFork activeIdx { activeFork with journaledState := active }).getFork idx =
        some target ∧
      initCaller host caller (active.state.lookup caller) target = (res, started) ∧
      b' = { b with inner := (b.inner.setFork activeIdx
        { activeFork with journaledState := active }).setFork idx started } := by
  obtain ⟨memDb, init, activeForkIds, inner⟩ := b
  cases hactive
  simp only [recordJournal, Option.bind_eq_bind, Option.bind_eq_some_iff] at h
  obtain ⟨activeFork, hfork, target, htarget, h⟩ := h
  cases h
  exact ⟨activeFork, target, _, hfork, htarget, rfl, rfl⟩

/-- The target before the persistent accounts are merged into it. -/
def readied (host : Host) (ord : DbOrder) (persistent : List Address) (caller : Address)
    (active : JournaledState) (d : ForkDb) (started : Fork) : Fork :=
  let synced := syncPersistent host ord d started.journaledState persistent
  let ready := orInsertCaller host caller active { synced.2 with depth := active.depth } started.db
  ⟨ready.2, ready.1⟩

/-- What selecting another fork does to the target. -/
theorem selectFork_of_active (hactive : b.activeForkIds = some (activeId, activeIdx))
    (hne : id ≠ activeId)
    (h : b.selectFork host ord id env active responses = some (.ok (), b', env', journaledState)) :
    ∃ activeFork target started, b.inner.getFork activeIdx = some activeFork ∧
      b.targetFork id = some target ∧
      initCaller host env.tx.caller (active.state.lookup env.tx.caller) target = (.ok (), started) ∧
      let persistent := ord.addresses.toList b.inner.persistentAccounts
      let synced := syncPersistent host ord activeFork.db started.journaledState persistent
      let merged := mergeAccountData persistent synced.1.cache active
        (readied host ord persistent env.tx.caller active activeFork.db started)
      journaledState = merged.journaledState ∧ b'.db = some merged.db := by
  have hother : ¬b.isActiveFork id := by
    simp [isActiveFork, activeForkId, hactive, Ne.symm hne]
  rcases selectFork_inv h with ⟨-, -, hsame⟩ | ⟨idx, err, herr, -⟩ |
    ⟨idx, forkEnv, b₁, b₂, -, hfind, hrecord, hover, rfl⟩
  · exact absurd (hsame rfl) hother
  · cases herr
  · obtain ⟨activeFork, target, started, hfork, htarget, hstarted, hb₁⟩ :=
      recordJournal_of_active hactive hrecord
    have hactive₁ : b₁.activeForkIds = some (activeId, activeIdx) := by rw [hb₁]; exact hactive
    obtain ⟨fork, activeFork', hfork', hidx, hactiveFork', hjournal, -, -, hinner⟩ :=
      handOver_of_active hactive₁ hover
    have hlt : activeIdx < b.inner.forks.length := lt_of_getFork (by rw [hfork]; rfl)
    rw [getFork_setFork hlt, if_neg hidx] at htarget
    have hltIdx : idx < b.inner.forks.length := lt_of_getFork (by rw [htarget]; rfl)
    -- the target is as it was recorded, and the database of the active fork as it was
    have hinner₁ : b₁.inner = (b.inner.setFork activeIdx
        { activeFork with journaledState := active }).setFork idx started := by rw [hb₁]
    rw [hinner₁, getFork_setFork (by simpa using hltIdx), if_pos rfl] at hfork'
    rw [hinner₁, getFork_setFork (by simpa using hltIdx), if_neg hidx.symm,
      getFork_setFork hlt, if_pos rfl] at hactiveFork'
    cases hfork'
    cases hactiveFork'
    refine ⟨activeFork, target, started, hfork, (findFork_ok hfind).trans htarget, hstarted, ?_, ?_⟩
    · rw [hjournal, hinner₁]
      rfl
    · show (b₂.inner.getFork idx).map _ = _
      rw [hinner, getFork_setFork (by simpa [hinner₁] using hltIdx), if_pos rfl,
        hinner₁]
      rfl

/-! ### Before the merge -/

section Readied

variable {persistent : List Address} {d : ForkDb} {target started : Fork} {acc : DbAccount}

/-- The caller is inserted where it is missing, and nothing else. -/
theorem orInsertCaller_spec (caller : Address) (current j : JournaledState)
    (d : ForkDb) :
    ∃ info, (current.state.lookup caller = none → info = .default host.keccakEmpty) ∧
      (∀ a, (orInsertCaller host caller current j d).1.state.lookup a =
        (j.state.lookup a).or (if a = caller then some (.ofInfo info) else none)) ∧
      ∀ a, a ≠ caller → (orInsertCaller host caller current j d).2.cache.accounts.lookup a =
        d.cache.accounts.lookup a := by
  cases hcaller : j.state.lookup caller with
  | some acc =>
    rw [orInsertCaller_of_some hcaller]
    refine ⟨.default host.keccakEmpty, fun _ => rfl, fun a => ?_, fun a _ => rfl⟩
    by_cases hne : a = caller
    · rw [hne, hcaller]
      rfl
    · simp [hne]
  | none =>
    obtain ⟨info, hinfo, hstate, hdb⟩ := @orInsertCaller_of_none host j caller current d hcaller
    refine ⟨info, fun hnone => ?_, fun a => ?_, fun a hne => ?_⟩
    · rcases hinfo with hdefault | ⟨acc, hacc, -⟩
      · exact hdefault
      · cases hnone.symm.trans hacc
    · rw [hstate, lookup_insert_ite]
      by_cases hne : a = caller
      · rw [hne, hcaller]
        simp
      · simp [hne]
    · rcases hdb with hsame | ⟨-, hinserted⟩
      · rw [hsame]
      · rw [hinserted]
        exact host.insertAccountInfo_of_ne hne

/-- An account that is in the active cache only. -/
theorem readied_of_none (hnodup : persistent.Nodup) (hmem : a ∈ persistent)
    (hcached : d.cache.accounts.lookup a = some acc) (hnone : active.state.lookup a = none)
    (hstarted : initCaller host caller (active.state.lookup caller) target = (.ok (), started)) :
    (readied host ord persistent caller active d started).journaledState.state.lookup a =
      ((target.journaledState.state.lookup a).map
        (syncStorage · (entries ord.slots acc.storage))).or
        (if a = caller then some (.ofInfo (.default host.keccakEmpty)) else none) ∧
    (a ≠ caller →
      (readied host ord persistent caller active d started).db.cache.accounts.lookup a =
        target.db.cache.accounts.lookup a) := by
  have hsame : started.journaledState.state.lookup a = target.journaledState.state.lookup a ∧
      (a ≠ caller → started.db.cache.accounts.lookup a = target.db.cache.accounts.lookup a) := by
    rcases initCaller_cases hstarted with ⟨rfl, -⟩ | ⟨callerAcc, info, hcaller, -, hstate, hcache⟩
    · exact ⟨rfl, fun _ => rfl⟩
    · have hne : a ≠ caller := by
        rintro rfl
        cases hnone.symm.trans hcaller
      exact ⟨by rw [hstate, lookup_insert_of_ne _ hne], hcache a⟩
  obtain ⟨info, hinfo, hstate, hcache⟩ := orInsertCaller_spec caller active
    { (syncPersistent host ord d started.journaledState persistent).2 with depth := active.depth }
    started.db
  obtain ⟨-, hsynced⟩ :=
    @syncPersistent_spec host ord a acc d started.journaledState persistent hnodup hcached
  refine ⟨?_, fun hne => (hcache a hne).trans (hsame.2 hne)⟩
  refine (hstate a).trans ?_
  rw [hsynced, if_pos hmem, hsame.1]
  by_cases hne : a = caller
  · rw [if_pos hne, if_pos hne, hinfo (hne ▸ hnone)]
  · rw [if_neg hne, if_neg hne]

/-- The slot that the target has of an account, unless the account is the caller and starts
anew. -/
def startedSlot (caller address : Address) (target : Fork) (slot : U256) : Option EvmStorageSlot :=
  if address = caller ∧ target.journaledState.depth = 0 then none
  else (target.journaledState.state.lookup address).bind (·.storage.lookup slot)

/-- A slot that the active cache has of an account, and its entry in the active journaled state
has not. -/
theorem readied_slot (hnodup : persistent.Nodup) (hmem : a ∈ persistent)
    (hcached : d.cache.accounts.lookup a = some acc) {slot value : U256}
    (hvalue : acc.storage.lookup slot = some value) {account : Account}
    (hsome : active.state.lookup a = some account) (hlacks : account.storage.lookup slot = none)
    (hstarted : initCaller host caller (active.state.lookup caller) target = (.ok (), started)) :
    ((readied host ord persistent caller active d started).journaledState.state.lookup a).bind
        (·.storage.lookup slot) =
      (startedSlot caller a target slot).map ({ · with presentValue := value }) := by
  obtain ⟨info, -, hstate, -⟩ := orInsertCaller_spec caller active
    { (syncPersistent host ord d started.journaledState persistent).2 with depth := active.depth }
    started.db
  obtain ⟨-, hsynced⟩ :=
    @syncPersistent_spec host ord a acc d started.journaledState persistent hnodup hcached
  rw [if_pos hmem] at hsynced
  have hready : ((readied host ord persistent caller active d
      started).journaledState.state.lookup a).bind (·.storage.lookup slot) =
      ((started.journaledState.state.lookup a).bind (·.storage.lookup slot)).map
        ({ · with presentValue := value }) := by
    refine (congrArg (Option.bind · (·.storage.lookup slot)) (hstate a)).trans ?_
    rw [hsynced]
    cases started.journaledState.state.lookup a with
    | none =>
      by_cases hne : a = caller
      · rw [if_pos hne]
        exact lookup_empty slot
      · rw [if_neg hne]
        rfl
    | some forkAccount =>
      refine ((syncStorage_spec forkAccount _).2.2 slot).trans ?_
      rw [lastValue_entries, hvalue]
      rfl
  rw [hready]
  refine congrArg (Option.map _) ?_
  unfold startedSlot
  rcases initCaller_cases hstarted with ⟨rfl, hnot⟩ | ⟨callerAcc, info, hcaller, hdepth, hstate, -⟩
  · rw [if_neg]
    rintro ⟨rfl, hdepth⟩
    rcases hnot with hnone | hnot
    · cases hsome.symm.trans hnone
    · exact hnot hdepth
  · by_cases hne : a = caller
    · -- the caller starts with its slots in the active journaled state
      subst hne
      cases hsome.symm.trans hcaller
      rw [if_pos ⟨rfl, hdepth⟩, hstate, lookup_insert]
      exact hlacks
    · rw [if_neg fun hand => hne hand.1, hstate, lookup_insert_of_ne _ hne]

end Readied

end Backend

end BaseAnvil.Forks

import BaseAnvil.Chain.Storage
import BaseAnvil.Lib.Run
import Mathlib.Data.List.DropRight

/-!
# BaseAnvil.Chain.StateCache

The cache of the states at past blocks (`InMemoryBlockStates`).

What the cache is for is a queue of states, oldest first, of which so many are kept as the
limits allow. The older part of the queue is on disk and the rest in memory; each part is a
list of hashes and a map from these hashes to states. `Represents` relates the cache to its
queue. As long as no hash is inserted that is still in the queue, all operations are those of
the queue; a hash that is still there ends up in the lists twice.
-/

namespace BaseAnvil.Chain

open Lib InMemoryBlockStates HashMap
open Pool (B256)

/-- A state that was written to disk and read back. -/
def CacheDb.spilled (ord ord' : DbOrder) (db : CacheDb) : CacheDb :=
  let (stateSnapshot, cleared) := db.clearIntoStateSnapshot ord
  cleared.initFromStateSnapshot ord' stateSnapshot

/-! ### Operations -/

/-- What the backend asks of the cache of states. -/
inductive StatesOp
  | insert (ord : DbOrder) (hash : B256) (state : CacheDb)
  | updateIntervalMineBlockTime (ord : DbOrder) (blockTime : UInt64)
  | clear

namespace InMemoryBlockStates

/-- The cache after an operation, if it returns. -/
def exec (s : InMemoryBlockStates) : StatesOp → Option InMemoryBlockStates
  | .insert ord hash state => s.insert ord hash state
  | .updateIntervalMineBlockTime ord blockTime => s.updateIntervalMineBlockTime ord blockTime
  | .clear => some s.clear

def StatesStep (s : InMemoryBlockStates) (op : StatesOp) (s' : InMemoryBlockStates) : Prop :=
  s.exec op = some s'

/-- A state looked up in memory, else on disk, from where it can be read. -/
def lookupState (ord : DbOrder) (s : InMemoryBlockStates) (hash : B256) : Option CacheDb :=
  match s.getState hash with
  | some state => some state
  | none => (s.getOnDiskState ord true hash).1

/-- How many states `enforce_limits` leaves: one less than either limit. -/
def capacity (inMemoryLimit maxOnDiskLimit : Nat) : Nat :=
  (inMemoryLimit - 1) + (maxOnDiskLimit - 1)

/-- The limit on states in memory that an insertion enforces. -/
def nextLimit (s : InMemoryBlockStates) : Nat :=
  if !s.isMemoryOnly && s.inMemoryLimit ≤ s.present.length then
    max (s.inMemoryLimit - 1) s.minInMemoryLimit
  else s.inMemoryLimit

/-- The hash is not among those that are left when the limits have been enforced. -/
def Fresh (s : InMemoryBlockStates) : StatesOp → Prop
  | .insert _ hash _ =>
    hash ∉ (s.oldestOnDisk ++ s.present).rtake (capacity s.nextLimit s.maxOnDiskLimit)
  | _ => True

/-! ### The queue -/

/-- The state is where it belongs: in memory, or on disk in two parts. -/
def Holds (s : InMemoryBlockStates) (hash : B256) (state : CacheDb) : Prop :=
  hash ∈ s.present ∧ s.states.lookup hash = some state ∨
  hash ∈ s.oldestOnDisk ∧ ∃ ord,
    s.onDiskStates.lookup hash = some (state.clearIntoStateSnapshot ord).2 ∧
    s.diskCache.lookup hash = some (state.clearIntoStateSnapshot ord).1

/-- The cache holds the states of the queue, and no others. -/
structure Represents (s : InMemoryBlockStates) (queue : List (B256 × CacheDb)) : Prop where
  hashes : queue.map (·.1) = s.oldestOnDisk ++ s.present
  nodup : (s.oldestOnDisk ++ s.present).Nodup
  states : ∀ hash, (s.states.lookup hash).isSome ↔ hash ∈ s.present
  onDiskStates : ∀ hash, (s.onDiskStates.lookup hash).isSome ↔ hash ∈ s.oldestOnDisk
  holds : ∀ hash state, (hash, state) ∈ queue → s.Holds hash state

/-- The limits are those of the other cache. -/
def SameLimits (s s' : InMemoryBlockStates) : Prop :=
  s'.inMemoryLimit = s.inMemoryLimit ∧ s'.minInMemoryLimit = s.minInMemoryLimit ∧
    s'.maxOnDiskLimit = s.maxOnDiskLimit

variable {s s' : InMemoryBlockStates} {queue : List (B256 × CacheDb)}

/-! ### One state leaves memory -/

variable {hash : B256} {rest : List B256} {state : CacheDb} {op : StatesOp} {ops : List StatesOp}

/-- Without a disk, the oldest state is lost. -/
theorem Represents.drop (h : s.Represents queue) (hpresent : s.present = hash :: rest)
    (hdisk : s.oldestOnDisk = []) :
    Represents { s with present := rest, states := s.states.erase hash } queue.tail := by
  have hnodup := h.nodup
  have hhashes := h.hashes
  rw [hdisk, hpresent, List.nil_append] at hnodup hhashes
  have hnot : hash ∉ rest := (List.nodup_cons.mp hnodup).1
  refine ⟨?_, ?_, isSome_lookup_erase hnot (hpresent ▸ h.states), h.onDiskStates,
    fun other state hmem => ?_⟩
  · rw [List.map_tail, hhashes, hdisk]
    rfl
  · show (s.oldestOnDisk ++ rest).Nodup
    rw [hdisk]
    exact (List.nodup_cons.mp hnodup).2
  · have hrest : other ∈ rest := by
      have htail : other ∈ (queue.map (·.1)).tail :=
        List.map_tail ▸ List.mem_map_of_mem hmem
      rwa [hhashes] at htail
    rcases h.holds other state (List.mem_of_mem_tail hmem) with ⟨-, hstate⟩ | ⟨hold, -⟩
    · refine Or.inl ⟨hrest, ?_⟩
      show (s.states.erase hash).lookup other = _
      rw [lookup_erase_ite, if_neg, hstate]
      rintro rfl
      exact hnot hrest
    · rw [hdisk] at hold
      cases hold

/-- With a disk, it is written there. -/
theorem Represents.move (h : s.Represents queue) (hpresent : s.present = hash :: rest)
    (hstate : s.states.lookup hash = some state) (ord : DbOrder) :
    Represents
      { s with
        present := rest
        states := s.states.erase hash
        diskCache := s.diskCache.insert hash (state.clearIntoStateSnapshot ord).1
        onDiskStates := s.onDiskStates.insert hash (state.clearIntoStateSnapshot ord).2
        oldestOnDisk := s.oldestOnDisk ++ [hash] } queue := by
  have hnodup := h.nodup
  rw [hpresent] at hnodup
  have hrest : hash ∉ rest := (List.nodup_cons.mp (List.nodup_append.mp hnodup).2.1).1
  have hold : hash ∉ s.oldestOnDisk := fun hmem =>
    List.disjoint_of_nodup_append hnodup hmem List.mem_cons_self
  refine ⟨?_, ?_, isSome_lookup_erase hrest (hpresent ▸ h.states),
    isSome_lookup_insert h.onDiskStates, fun other state' hmem => ?_⟩
  · rw [h.hashes, hpresent, List.append_assoc]
    rfl
  · show ((s.oldestOnDisk ++ [hash]) ++ rest).Nodup
    rw [List.append_assoc]
    exact hnodup
  · unfold Holds
    rw [lookup_erase_ite, lookup_insert_ite, lookup_insert_ite]
    by_cases heq : other = hash
    · -- this is the one that is moved
      subst heq
      rcases h.holds other state' hmem with ⟨-, hstate'⟩ | ⟨hmem', -⟩
      · cases hstate.symm.trans hstate'
        exact Or.inr ⟨by simp, ord, if_pos rfl, if_pos rfl⟩
      · exact absurd hmem' hold
    · simp only [if_neg heq]
      rcases h.holds other state' hmem with ⟨hmem', hstate'⟩ | ⟨hmem', hdisk⟩
      · rw [hpresent] at hmem'
        exact Or.inl ⟨List.mem_of_ne_of_mem heq hmem', hstate'⟩
      · exact Or.inr ⟨List.mem_append_left _ hmem', hdisk⟩

/-- The oldest state on disk is purged. -/
theorem Represents.purge (h : s.Represents queue) (hdisk : s.oldestOnDisk = hash :: rest) :
    Represents
      { s with
        oldestOnDisk := rest
        onDiskStates := s.onDiskStates.erase hash
        diskCache := s.diskCache.erase hash } queue.tail := by
  have hnodup := h.nodup
  have hhashes := h.hashes
  rw [hdisk] at hnodup hhashes
  obtain ⟨hnot, hrest⟩ := List.nodup_cons.mp hnodup
  have herase := isSome_lookup_erase (fun hmem => hnot (List.mem_append_left _ hmem))
    (hdisk ▸ h.onDiskStates)
  refine ⟨?_, hrest, h.states, herase, fun other state hmem => ?_⟩
  · rw [List.map_tail, hhashes]
    rfl
  · have hmem' : other ∈ rest ++ s.present := by
      have htail : other ∈ (queue.map (·.1)).tail := List.map_tail ▸ List.mem_map_of_mem hmem
      rwa [hhashes] at htail
    have hne : other ≠ hash := by
      rintro rfl
      exact hnot hmem'
    unfold Holds
    rw [Finmap.lookup_erase_ne hne, Finmap.lookup_erase_ne hne]
    refine (h.holds other state (List.mem_of_mem_tail hmem)).imp_right fun ⟨hold, hfiles⟩ => ?_
    rw [hdisk] at hold
    exact ⟨List.mem_of_ne_of_mem hne hold, hfiles⟩

/-! ### Enforcing the limits -/

theorem min_length_tail {l : List B256} {limit : Nat} (hl : l = hash :: rest)
    (hfull : limit ≤ l.length) : min rest.length (limit - 1) = min l.length (limit - 1) := by
  rw [hl, List.length_cons] at *
  omega

/-- The first loop: memory has room for one more state, and what it lost is on disk, if there
is one. -/
theorem Represents.enforceMemoryLimit (ord : DbOrder) (h : s.Represents queue)
    (hlimit : 1 ≤ s.inMemoryLimit) (hdisk : s.maxOnDiskLimit = 0 → s.oldestOnDisk = []) :
    ∃ s' queue', s.enforceMemoryLimit ord = some s' ∧ s'.Represents queue' ∧ queue' <:+ queue ∧
      s.SameLimits s' ∧ (s.maxOnDiskLimit = 0 → s'.oldestOnDisk = []) ∧
      s'.present.length = min s.present.length (s.inMemoryLimit - 1) ∧
      (s.maxOnDiskLimit ≠ 0 → s'.oldestOnDisk.length + s'.present.length =
        s.oldestOnDisk.length + s.present.length) := by
  fun_induction InMemoryBlockStates.enforceMemoryLimit ord s generalizing queue with
  | case1 s hfull hempty =>
    simp [hempty] at hfull
    omega
  | case2 s hfull hash rest hpresent hnone =>
    -- a hash in the list has its state in the map
    have hsome := (h.states hash).mpr (hpresent ▸ List.mem_cons_self)
    rw [hnone] at hsome
    cases hsome
  | case3 s hfull hash rest hpresent state hstate s₁ honly =>
    rename_i ih
    have hzero : s.maxOnDiskLimit = 0 := of_decide_eq_true honly
    obtain ⟨s', queue', hloop, hrep, hsuffix, hsame, hdisk', hlen, -⟩ :=
      ih (h.drop hpresent (hdisk hzero)) hlimit hdisk
    exact ⟨s', queue', hloop, hrep, hsuffix.trans (List.tail_suffix queue), hsame, hdisk',
      hlen.trans (min_length_tail hpresent hfull), fun hne => absurd hzero hne⟩
  | case4 s hfull hash rest hpresent state hstate s₁ honly snapshot cleared hclear =>
    rename_i ih
    have hne : s.maxOnDiskLimit ≠ 0 := fun hzero => honly (decide_eq_true hzero)
    have hmove := h.move hpresent hstate ord
    rw [hclear] at hmove
    obtain ⟨s', queue', hloop, hrep, hsuffix, hsame, -, hlen, hsum⟩ :=
      ih hmove hlimit fun hzero => absurd hzero hne
    refine ⟨s', queue', hloop, hrep, hsuffix, hsame, fun hzero => absurd hzero hne,
      hlen.trans (min_length_tail hpresent hfull), fun _ => ?_⟩
    rw [hsum hne, hpresent]
    show (s.oldestOnDisk ++ [hash]).length + rest.length = _
    simp only [List.length_append, List.length_cons, List.length_nil]
    omega
  | case5 s hroom =>
    exact ⟨s, queue, rfl, h, List.suffix_rfl, ⟨rfl, rfl, rfl⟩, hdisk, by omega, fun _ => rfl⟩

/-- The second loop: the disk has room for one more state. -/
theorem Represents.enforceDiskLimit (h : s.Represents queue) :
    ∃ queue', s.enforceDiskLimit.Represents queue' ∧ queue' <:+ queue ∧
      s.SameLimits s.enforceDiskLimit ∧ s.enforceDiskLimit.present = s.present ∧
      (s.maxOnDiskLimit = 0 → s.enforceDiskLimit.oldestOnDisk = s.oldestOnDisk) ∧
      (s.maxOnDiskLimit ≠ 0 → s.enforceDiskLimit.oldestOnDisk.length =
        min s.oldestOnDisk.length (s.maxOnDiskLimit - 1)) := by
  fun_induction InMemoryBlockStates.enforceDiskLimit s generalizing queue with
  | case1 s hfull hempty =>
    exact ⟨queue, h, List.suffix_rfl, ⟨rfl, rfl, rfl⟩, rfl, fun _ => rfl, by simp [hempty]⟩
  | case2 s hfull hash rest hdisk =>
    rename_i ih
    simp only [Bool.and_eq_true, Bool.not_eq_true', isMemoryOnly, decide_eq_false_iff_not,
      decide_eq_true_eq] at hfull
    obtain ⟨queue', hrep, hsuffix, hsame, hpresent, -, hlen⟩ := ih (h.purge hdisk)
    refine ⟨queue', hrep, hsuffix.trans (List.tail_suffix queue), hsame, hpresent,
      fun hzero => absurd hzero hfull.1, fun hne => ?_⟩
    exact (hlen hne).trans (min_length_tail hdisk hfull.2)
  | case3 s hroom =>
    simp only [Bool.and_eq_true, Bool.not_eq_true', isMemoryOnly, decide_eq_false_iff_not,
      decide_eq_true_eq, not_and] at hroom
    refine ⟨queue, h, List.suffix_rfl, ⟨rfl, rfl, rfl⟩, rfl, fun _ => rfl, fun hne => ?_⟩
    have := hroom hne
    omega

/-- What holds of the limits and of how much of them is used. -/
structure WithinLimits (s : InMemoryBlockStates) : Prop where
  min_pos : 1 ≤ s.minInMemoryLimit
  min_le : s.minInMemoryLimit ≤ s.inMemoryLimit
  min_le_history : s.minInMemoryLimit ≤ minHistoryLimit
  present : s.present.length ≤ s.inMemoryLimit
  oldestOnDisk : s.oldestOnDisk.length ≤ s.maxOnDiskLimit - 1

/-- Enforcing the limits keeps the newest states of the queue. -/
theorem Represents.enforceLimits (ord : DbOrder) (h : s.Represents queue)
    (hlimit : 1 ≤ s.inMemoryLimit) (hdisk : s.oldestOnDisk.length ≤ s.maxOnDiskLimit - 1) :
    ∃ s', s.enforceLimits ord = some s' ∧
      s'.Represents (queue.rtake (capacity s.inMemoryLimit s.maxOnDiskLimit)) ∧
      s.SameLimits s' ∧ s'.present.length ≤ s.inMemoryLimit - 1 ∧
      s'.oldestOnDisk.length ≤ s.maxOnDiskLimit - 1 := by
  obtain ⟨s₁, queue₁, hmemory, hrep₁, hsuffix₁, hsame₁, hdisk₁, hlen₁, hsum₁⟩ :=
    h.enforceMemoryLimit ord hlimit fun hzero => List.eq_nil_of_length_eq_zero (by omega)
  obtain ⟨queue₂, hrep₂, hsuffix₂, hsame₂, hpresent₂, hzero₂, hlen₂⟩ := hrep₁.enforceDiskLimit
  have hmax : s₁.maxOnDiskLimit = s.maxOnDiskLimit := hsame₁.2.2
  rw [hmax] at hzero₂ hlen₂
  -- the queue that is left is a suffix, so only its length matters
  have hlen : queue.length = s.oldestOnDisk.length + s.present.length := by
    rw [← List.length_map (·.1), h.hashes, List.length_append]
  have hlen' : queue₂.length = s₁.enforceDiskLimit.oldestOnDisk.length + s₁.present.length := by
    rw [← List.length_map (·.1), hrep₂.hashes, List.length_append, hpresent₂]
  have hleft : queue₂ = queue.rtake (capacity s.inMemoryLimit s.maxOnDiskLimit) := by
    rw [List.suffix_iff_eq_drop.mp (hsuffix₂.trans hsuffix₁), List.rtake, capacity, hlen', hlen,
      hlen₁]
    congr 1
    by_cases hzero : s.maxOnDiskLimit = 0
    · rw [hzero₂ hzero, hdisk₁ hzero]
      simp only [List.length_nil]
      omega
    · have := hsum₁ hzero
      omega
  refine ⟨s₁.enforceDiskLimit, by rw [InMemoryBlockStates.enforceLimits, hmemory]; rfl,
    hleft ▸ hrep₂, ⟨hsame₂.1.trans hsame₁.1, hsame₂.2.1.trans hsame₁.2.1, hsame₂.2.2.trans hmax⟩,
    ?_, ?_⟩
  · rw [hpresent₂, hlen₁]
    omega
  · by_cases hzero : s.maxOnDiskLimit = 0
    · rw [hzero₂ hzero, hdisk₁ hzero]
      simp
    · rw [hlen₂ hzero]
      omega

/-! ### One operation -/

/-- The queue after an operation. -/
def queueAfter (s : InMemoryBlockStates) (queue : List (B256 × CacheDb)) :
    StatesOp → List (B256 × CacheDb)
  | .insert _ hash state =>
    queue.rtake (capacity s.nextLimit s.maxOnDiskLimit) ++ [(hash, state)]
  | .updateIntervalMineBlockTime _ blockTime =>
    if blockTime ≤ 2 then queue.rtake (capacity (defaultHistoryLimit * 3) s.maxOnDiskLimit)
    else queue
  | .clear => []

/-- Another limit does not change what is held. -/
theorem Represents.withLimit (h : s.Represents queue) (limit : Nat) :
    Represents { s with inMemoryLimit := limit } queue :=
  ⟨h.hashes, h.nodup, h.states, h.onDiskStates, h.holds⟩

/-- A state is added under a hash that is not there. -/
theorem Represents.push (h : s.Represents queue) (hfresh : hash ∉ s.oldestOnDisk ++ s.present) :
    Represents { s with states := s.states.insert hash state, present := s.present ++ [hash] }
      (queue ++ [(hash, state)]) := by
  refine ⟨?_, ?_, isSome_lookup_insert h.states, h.onDiskStates,
    fun other state' hmem => ?_⟩
  · rw [List.map_append, h.hashes, List.append_assoc]
    rfl
  · show (s.oldestOnDisk ++ (s.present ++ [hash])).Nodup
    rw [← List.append_assoc]
    exact List.Nodup.append h.nodup (List.nodup_singleton _) (by simpa using hfresh)
  · unfold Holds
    rw [lookup_insert_ite]
    rcases List.mem_append.mp hmem with hold | hnew
    · have hmem' : other ∈ s.oldestOnDisk ++ s.present := h.hashes ▸ List.mem_map_of_mem hold
      have hne : other ≠ hash := by
        rintro rfl
        exact hfresh hmem'
      rw [if_neg hne]
      refine (h.holds other state' hold).imp_left fun ⟨hpresent, hstate⟩ => ?_
      exact ⟨List.mem_append_left _ hpresent, hstate⟩
    · cases List.mem_singleton.mp hnew
      exact Or.inl ⟨by simp, if_pos rfl⟩

theorem WithinLimits.le_nextLimit (h : s.WithinLimits) :
    s.minInMemoryLimit ≤ s.nextLimit ∧ s.nextLimit ≤ s.inMemoryLimit := by
  have := h.min_le
  unfold nextLimit
  split <;> omega

/-- What an insertion does before the state is added. -/
theorem insert_eq :
    s.insert ord hash state =
      (enforceLimits ord { s with inMemoryLimit := s.nextLimit }).map fun s =>
        { s with states := s.states.insert hash state, present := s.present ++ [hash] } := by
  unfold insert nextLimit
  split <;> rfl

theorem insert_cases (h : s.Represents queue) (hlimits : s.WithinLimits) :
    ∃ s₁ : InMemoryBlockStates,
      s₁.Represents (queue.rtake (capacity s.nextLimit s.maxOnDiskLimit)) ∧
      s₁.inMemoryLimit = s.nextLimit ∧ s₁.minInMemoryLimit = s.minInMemoryLimit ∧
      s₁.maxOnDiskLimit = s.maxOnDiskLimit ∧ s₁.present.length ≤ s.nextLimit - 1 ∧
      s₁.oldestOnDisk.length ≤ s.maxOnDiskLimit - 1 ∧
      s.insert ord hash state = some
        { s₁ with states := s₁.states.insert hash state, present := s₁.present ++ [hash] } := by
  have hnext := hlimits.le_nextLimit
  have hpos := hlimits.min_pos
  obtain ⟨s₁, henforce, hrep, hsame, hpresent, hdisk⟩ :=
    (h.withLimit s.nextLimit).enforceLimits ord (show 1 ≤ s.nextLimit by omega)
      hlimits.oldestOnDisk
  refine ⟨s₁, hrep, hsame.1, hsame.2.1, hsame.2.2, hpresent, hdisk, ?_⟩
  rw [insert_eq, henforce]
  rfl

/-- The hashes that are left are those of the states that are left. -/
theorem Represents.hashes_rtake (h : s.Represents queue) {n : Nat}
    (h' : s'.Represents (queue.rtake n)) :
    s'.oldestOnDisk ++ s'.present = (s.oldestOnDisk ++ s.present).rtake n := by
  rw [← h'.hashes, ← h.hashes, List.rtake, List.rtake, List.map_drop, List.length_map]

/-- **One operation.** It returns, and does to the cache what it does to the queue. -/
theorem Represents.step (h : s.Represents queue) (hlimits : s.WithinLimits) (hfresh : s.Fresh op) :
    ∃ s', s.exec op = some s' ∧ s'.Represents (s.queueAfter queue op) ∧ s'.WithinLimits ∧
      s'.maxOnDiskLimit = s.maxOnDiskLimit := by
  cases op with
  | insert ord hash state =>
    obtain ⟨s₁, hrep, hlimit, hmin, hmax, hpresent, hdisk, hinsert⟩ :=
      insert_cases h hlimits
    have hnext := hlimits.le_nextLimit
    have hpos := hlimits.min_pos
    refine ⟨_, hinsert, hrep.push ?_, ⟨?_, ?_, ?_, ?_, ?_⟩, hmax⟩
    · rw [h.hashes_rtake hrep]
      exact hfresh
    · exact hmin ▸ hpos
    · show s₁.minInMemoryLimit ≤ s₁.inMemoryLimit
      rw [hmin, hlimit]
      exact hnext.1
    · exact hmin ▸ hlimits.min_le_history
    · show (s₁.present ++ [hash]).length ≤ s₁.inMemoryLimit
      rw [List.length_append, List.length_singleton, hlimit]
      omega
    · show s₁.oldestOnDisk.length ≤ s₁.maxOnDiskLimit - 1
      rw [hmax]
      exact hdisk
  | updateIntervalMineBlockTime ord blockTime =>
    simp only [exec, updateIntervalMineBlockTime, queueAfter]
    split
    · have hhistory := hlimits.min_le_history
      obtain ⟨s₁, henforce, hrep, ⟨hlimit, hmin, hmax⟩, hpresent, hdisk⟩ :=
        (h.withLimit (defaultHistoryLimit * 3)).enforceLimits ord
          (show 1 ≤ defaultHistoryLimit * 3 by decide) hlimits.oldestOnDisk
      dsimp only at hlimit hmin hmax hpresent hdisk
      refine ⟨s₁, henforce, hrep, ⟨hmin ▸ hlimits.min_pos, ?_, hmin ▸ hhistory, ?_, ?_⟩, hmax⟩
      · rw [hmin, hlimit]
        exact hhistory.trans (by decide)
      · rw [hlimit]
        omega
      · rw [hmax]
        exact hdisk
    · exact ⟨s, rfl, h, hlimits, rfl⟩
  | clear =>
    refine ⟨s.clear, rfl, ⟨rfl, List.nodup_nil, fun hash => ?_, fun hash => ?_, ?_⟩,
      ⟨hlimits.min_pos, hlimits.min_le, hlimits.min_le_history, Nat.zero_le _, Nat.zero_le _⟩,
      rfl⟩
    · simp [clear]
    · simp [clear]
    · exact fun _ _ hmem => absurd hmem List.not_mem_nil

theorem Represents.of_step (h : s.Represents queue) (hlimits : s.WithinLimits)
    (hstep : Guarded Fresh StatesStep s op s') :
    s'.Represents (s.queueAfter queue op) ∧ s'.WithinLimits := by
  obtain ⟨s₁, hexec, hrep, hlimits', -⟩ := h.step hlimits hstep.1
  cases hexec.symm.trans hstep.2
  exact ⟨hrep, hlimits'⟩

theorem represents_new (inMemoryLimit onDiskLimit : Nat) :
    (new inMemoryLimit onDiskLimit).Represents [] :=
  ⟨rfl, List.nodup_nil, by simp [new], by simp [new],
    fun _ _ hmem => absurd hmem List.not_mem_nil⟩

theorem withinLimits_new {inMemoryLimit : Nat} (hlimit : 1 ≤ inMemoryLimit) (onDiskLimit : Nat) :
    (new inMemoryLimit onDiskLimit).WithinLimits where
  min_pos := le_min hlimit (by decide)
  min_le := min_le_left _ _
  min_le_history := min_le_right _ _
  present := Nat.zero_le _
  oldestOnDisk := Nat.zero_le _

/-! ### Where a state is found -/

theorem Represents.lookupState_of_mem (h : s.Represents queue) (hmem : (hash, state) ∈ queue) :
    s.lookupState ord hash = some state ∨
      ∃ ord', s.lookupState ord hash = some (state.spilled ord' ord) := by
  rcases h.holds hash state hmem with ⟨-, hstate⟩ | ⟨hold, ord', hcleared, hfile⟩
  · left
    simp only [lookupState, getState, hstate]
  · have hnone : s.states.lookup hash = none := by
      rw [← Option.not_isSome_iff_eq_none, h.states]
      exact List.disjoint_of_nodup_append h.nodup hold
    refine Or.inr ⟨ord', ?_⟩
    simp only [lookupState, getState, hnone, getOnDiskState, hcleared, if_true, hfile]
    rfl

theorem Represents.lookupState_of_notMem (h : s.Represents queue) (hnot : hash ∉ queue.map (·.1)) :
    s.lookupState ord hash = none := by
  rw [h.hashes, List.mem_append, not_or] at hnot
  have hstate : s.states.lookup hash = none := by
    rw [← Option.not_isSome_iff_eq_none, h.states]
    exact hnot.2
  have hdisk : s.onDiskStates.lookup hash = none := by
    rw [← Option.not_isSome_iff_eq_none, h.onDiskStates]
    exact hnot.1
  simp only [lookupState, getState, hstate, getOnDiskState, hdisk]

/-- The states that are inserted. -/
def insertions (ops : List StatesOp) : List (B256 × CacheDb) :=
  ops.filterMap fun
    | .insert _ hash state => some (hash, state)
    | _ => none

/-- The operation leaves a state in the queue that has so many newer ones behind it. -/
def Keeps (s : InMemoryBlockStates) (newer : Nat) : StatesOp → Prop
  | .insert _ _ _ => newer < capacity s.nextLimit s.maxOnDiskLimit
  | .updateIntervalMineBlockTime _ blockTime =>
    blockTime ≤ 2 → newer < capacity (defaultHistoryLimit * 3) s.maxOnDiskLimit
  | .clear => False

section

variable {α : Type} {front newer : List α} {x : α} {n : Nat}

theorem rtake_kept (h : newer.length < n) :
    ∃ front', (front ++ x :: newer).rtake n = front' ++ x :: newer := by
  refine ⟨front.drop ((front ++ x :: newer).length - n), ?_⟩
  rw [List.rtake, List.drop_append_of_le_length]
  simp only [List.length_append, List.length_cons]
  omega

theorem rtake_lost (h : n ≤ newer.length) : (front ++ x :: newer).rtake n <:+ newer := by
  have hsuffix : newer <:+ front ++ x :: newer := ⟨front ++ [x], by simp⟩
  refine List.suffix_of_suffix_length_le (List.drop_suffix _ _) hsuffix ?_
  rw [List.rtake, List.length_drop]
  omega

end

theorem queueAfter_kept {front newer : List (B256 × CacheDb)} {x : B256 × CacheDb}
    (h : s.Keeps newer.length op) :
    ∃ front', s.queueAfter (front ++ x :: newer) op =
      front' ++ x :: (newer ++ insertions [op]) := by
  cases op with
  | insert ord hash state =>
    obtain ⟨front', heq⟩ := @rtake_kept _ front newer x _ h
    exact ⟨front', by simp [queueAfter, heq, insertions]⟩
  | updateIntervalMineBlockTime ord blockTime =>
    simp only [queueAfter, insertions, List.filterMap_cons_none, List.filterMap_nil,
      List.append_nil]
    split
    · rename_i hfast
      exact rtake_kept (h hfast)
    · exact ⟨front, rfl⟩
  | clear => exact absurd h id

theorem queueAfter_suffix {xs : List (B256 × CacheDb)} (h : queue <:+ xs) :
    s.queueAfter queue op <:+ xs ++ insertions [op] := by
  have hrtake : ∀ n, queue.rtake n <:+ xs := fun n => (List.drop_suffix _ _).trans h
  cases op with
  | insert ord hash state => exact List.suffix_append_self_iff.mpr (hrtake _)
  | updateIntervalMineBlockTime ord blockTime =>
    simp only [queueAfter, insertions, List.filterMap_cons_none, List.filterMap_nil,
      List.append_nil]
    split
    · exact hrtake _
    · exact h
  | clear => exact List.nil_suffix

theorem queueAfter_lost {front newer : List (B256 × CacheDb)} {x : B256 × CacheDb}
    (h : ¬s.Keeps newer.length op) :
    s.queueAfter (front ++ x :: newer) op <:+ newer ++ insertions [op] := by
  cases op with
  | insert ord hash state =>
    exact List.suffix_append_self_iff.mpr (rtake_lost (Nat.le_of_not_lt h))
  | updateIntervalMineBlockTime ord blockTime =>
    obtain ⟨hfast, hfull⟩ := Classical.not_imp.mp h
    simp only [queueAfter, if_pos hfast, insertions, List.filterMap_cons_none,
      List.filterMap_nil, List.append_nil]
    exact rtake_lost (Nat.le_of_not_lt hfull)
  | clear => exact List.nil_suffix

/-- Each of the operations that follow leaves the state in the queue. -/
def KeptAlong (s : InMemoryBlockStates) (ops : List StatesOp) : Prop :=
  ∀ done op rest t, ops = done ++ op :: rest → Run (Guarded Fresh StatesStep) s done t →
    t.Keeps (insertions done).length op

theorem guarded_deterministic (s : InMemoryBlockStates) (op : StatesOp) (t t' : InMemoryBlockStates)
    (h : Guarded Fresh StatesStep s op t) (h' : Guarded Fresh StatesStep s op t') : t = t' :=
  Option.some.inj (h.2.symm.trans h'.2)

theorem keptAlong_snoc (hrun : Run (Guarded Fresh StatesStep) s ops s') :
    s.KeptAlong (ops ++ [op]) ↔ s.KeptAlong ops ∧ s'.Keeps (insertions ops).length op := by
  have hiff := Run.forall_along_snoc (l := op) (Q := fun done t => t.Keeps (insertions done).length)
    guarded_deterministic hrun
  constructor
  · intro h
    obtain ⟨hops, hlast⟩ := hiff.mp fun done t op' rest => h done op' rest t
    exact ⟨fun done op' rest t => hops done t op' rest, hlast⟩
  · rintro ⟨hops, hlast⟩ done op' rest t
    exact hiff.mpr ⟨fun done t op' rest => hops done op' rest t, hlast⟩ done t op' rest

/-- **A state in the queue.** From where it is inserted on, it is followed by those inserted
after it, as long as the operations leave it there; afterwards there are only such. -/
theorem Represents.track {front : List (B256 × CacheDb)} {x : B256 × CacheDb}
    (h : s.Represents (front ++ [x])) (hlimits : s.WithinLimits)
    (hrun : Run (Guarded Fresh StatesStep) s ops s') :
    s'.WithinLimits ∧
    (s.KeptAlong ops → ∃ front', s'.Represents (front' ++ x :: insertions ops)) ∧
    (¬s.KeptAlong ops → ∃ queue, s'.Represents queue ∧ queue <:+ insertions ops) := by
  induction hrun with
  | nil =>
    refine ⟨hlimits, fun _ => ⟨front, h⟩, fun hlost => absurd ?_ hlost⟩
    intro done op rest t hops
    simp at hops
  | @snoc ops t t' op hr hs ih =>
    obtain ⟨hlimits', hkept, hlost⟩ := ih
    have happend : insertions (ops ++ [op]) = insertions ops ++ insertions [op] :=
      List.filterMap_append
    rw [keptAlong_snoc hr, happend]
    by_cases hops : s.KeptAlong ops
    · obtain ⟨front', hrep⟩ := hkept hops
      obtain ⟨hrep', hlimits''⟩ := hrep.of_step hlimits' hs
      refine ⟨hlimits'', fun hall => ?_, fun hnot => ⟨_, hrep', ?_⟩⟩
      · obtain ⟨front'', heq⟩ := @queueAfter_kept t op front' (insertions ops) x hall.2
        exact ⟨front'', heq ▸ hrep'⟩
      · exact queueAfter_lost fun hkeep => hnot ⟨hops, hkeep⟩
    · obtain ⟨queue, hrep, hsuffix⟩ := hlost hops
      obtain ⟨hrep', hlimits''⟩ := hrep.of_step hlimits' hs
      exact ⟨hlimits'', fun hall => absurd hall.1 hops,
        fun _ => ⟨_, hrep', queueAfter_suffix hsuffix⟩⟩

/-! ### Whole histories -/

/-- The lists are those of the keys of the maps, without duplicates; no hash is in both; and
neither exceeds its limit. -/
structure WellFormed (s : InMemoryBlockStates) : Prop where
  present_nodup : s.present.Nodup
  present_states : ∀ hash, hash ∈ s.present ↔ (s.states.lookup hash).isSome
  oldest_nodup : s.oldestOnDisk.Nodup
  oldest_states : ∀ hash, hash ∈ s.oldestOnDisk ↔ (s.onDiskStates.lookup hash).isSome
  disjoint : ∀ hash ∈ s.present, hash ∉ s.oldestOnDisk
  inMemory : s.present.length ≤ s.inMemoryLimit
  onDisk : s.oldestOnDisk.length ≤ s.maxOnDiskLimit

theorem Represents.wellFormed (h : s.Represents queue) (hlimits : s.WithinLimits) :
    s.WellFormed where
  present_nodup := (List.nodup_append.mp h.nodup).2.1
  present_states hash := (h.states hash).symm
  oldest_nodup := (List.nodup_append.mp h.nodup).1
  oldest_states hash := (h.onDiskStates hash).symm
  disjoint _ hpresent hold := List.disjoint_of_nodup_append h.nodup hold hpresent
  inMemory := hlimits.present
  onDisk := hlimits.oldestOnDisk.trans (Nat.sub_le _ _)

/-- A hash that is left in the queue is in the lists twice once it is inserted. -/
theorem Represents.wellFormed_insert_iff (h : s.Represents queue) (hlimits : s.WithinLimits)
    {ord : DbOrder} (hinsert : s.exec (.insert ord hash state) = some s') :
    s'.WellFormed ↔ s.Fresh (.insert ord hash state) := by
  constructor
  · intro hwf
    obtain ⟨s₁, hrep, -, -, -, -, -, heq⟩ := insert_cases h hlimits
    cases heq.symm.trans hinsert
    show hash ∉ (s.oldestOnDisk ++ s.present).rtake _
    rw [← h.hashes_rtake hrep, List.mem_append, not_or]
    constructor
    · exact hwf.disjoint hash (List.mem_append_right _ List.mem_cons_self)
    · intro hmem
      exact List.disjoint_of_nodup_append hwf.present_nodup hmem List.mem_cons_self
  · intro hfresh
    obtain ⟨hrep, hlimits'⟩ := h.of_step hlimits ⟨hfresh, hinsert⟩
    exact hrep.wellFormed hlimits'

theorem represents_of_run {inMemoryLimit onDiskLimit : Nat} (hlimit : 1 ≤ inMemoryLimit)
    (hrun : Run (Guarded Fresh StatesStep) (new inMemoryLimit onDiskLimit) ops s) :
    (∃ queue, s.Represents queue) ∧ s.WithinLimits := by
  refine hrun.keeps (I := fun s => (∃ queue, s.Represents queue) ∧ s.WithinLimits) ?_ ?_
  · exact ⟨⟨[], represents_new _ _⟩, withinLimits_new hlimit _⟩
  · rintro s op s' ⟨⟨queue, hrep⟩, hlimits⟩ hstep
    obtain ⟨hrep', hlimits'⟩ := hrep.of_step hlimits hstep
    exact ⟨⟨_, hrep'⟩, hlimits'⟩

/-- **Historical states.** As long as no hash is inserted that is left in the queue, lists and
maps agree and stay within the limits; the first such hash breaks this. A state that was
inserted, and not since replaced, is found until there are as many newer ones as an operation
leaves, and not from then on. -/
theorem wellFormed_of_run {inMemoryLimit onDiskLimit : Nat} (hlimit : 1 ≤ inMemoryLimit)
    {ops : List StatesOp} {s : InMemoryBlockStates}
    (hrun : Run (Guarded Fresh StatesStep) (new inMemoryLimit onDiskLimit) ops s) :
    s.WellFormed ∧
    (∀ op, ∃ s', s.exec op = some s') ∧
    (∀ ord hash state s', s.exec (.insert ord hash state) = some s' →
      (s'.WellFormed ↔ s.Fresh (.insert ord hash state))) ∧
    ∀ before ord hash state after s₁, ops = before ++ .insert ord hash state :: after →
      Run (Guarded Fresh StatesStep) (new inMemoryLimit onDiskLimit)
        (before ++ [.insert ord hash state]) s₁ →
      (∀ newer ∈ insertions after, newer.1 ≠ hash) →
      (s₁.KeptAlong after → ∀ ord', s.lookupState ord' hash = some state ∨
        ∃ ord'', s.lookupState ord' hash = some (state.spilled ord'' ord')) ∧
      (¬s₁.KeptAlong after → ∀ ord', s.lookupState ord' hash = none) := by
  obtain ⟨⟨queue, hrep⟩, hlimits⟩ := represents_of_run hlimit hrun
  refine ⟨hrep.wellFormed hlimits, fun op => ?_,
    fun ord hash state s' => hrep.wellFormed_insert_iff hlimits,
    fun before ord hash state after s₁ hops hrun₁ hnewer => ?_⟩
  · cases op with
    | insert ord hash state =>
      obtain ⟨s₁, -, -, -, -, -, -, heq⟩ := insert_cases hrep hlimits
      exact ⟨_, heq⟩
    | updateIntervalMineBlockTime ord blockTime =>
      have hfresh : s.Fresh (.updateIntervalMineBlockTime ord blockTime) := trivial
      obtain ⟨s', hexec, -⟩ := hrep.step hlimits hfresh
      exact ⟨s', hexec⟩
    | clear => exact ⟨s.clear, rfl⟩
  · -- the queue right after the insertion ends with the new state
    obtain ⟨s₀, hrun₀, hstep⟩ := hrun₁.snoc_inv
    obtain ⟨⟨queue₀, hrep₀⟩, hlimits₀⟩ := represents_of_run hlimit hrun₀
    obtain ⟨hrep₁, hlimits₁⟩ := hrep₀.of_step hlimits₀ hstep
    rw [hops, ← List.singleton_append, ← List.append_assoc] at hrun
    obtain ⟨s₁', hrun₁', hafter⟩ := hrun.append_inv
    cases hrun₁'.deterministic guarded_deterministic hrun₁
    obtain ⟨-, hkept, hlost⟩ := hrep₁.track hlimits₁ hafter
    constructor
    · intro hall ord'
      obtain ⟨front, hrep'⟩ := hkept hall
      exact hrep'.lookupState_of_mem (List.mem_append_right _ List.mem_cons_self)
    · intro hnot ord'
      obtain ⟨queue', hrep', hsuffix⟩ := hlost hnot
      refine hrep'.lookupState_of_notMem (fun hmem => ?_)
      obtain ⟨newer, hmem', rfl⟩ := List.mem_map.mp hmem
      exact hnewer newer (hsuffix.subset hmem') rfl

/-! ### Histories, evaluated -/

/-- `Fresh`, as a test. -/
def fresh? (s : InMemoryBlockStates) : StatesOp → Bool
  | .insert _ hash _ =>
    decide (hash ∉ (s.oldestOnDisk ++ s.present).rtake (capacity s.nextLimit s.maxOnDiskLimit))
  | _ => true

theorem fresh_of_test (s : InMemoryBlockStates) (op : StatesOp) (h : s.fresh? op = true) :
    s.Fresh op := by
  cases op with
  | insert ord hash state =>
    simp only [fresh?, decide_eq_true_eq] at h
    exact h
  | updateIntervalMineBlockTime ord blockTime => trivial
  | clear => trivial

/-- A state to be told apart from others. -/
def sampleState (n : B256) : CacheDb := ⟨∅, ∅, Finmap.singleton 0 n⟩

def sampleInsert (hash n : B256) : StatesOp := .insert ascendingDbOrder hash (sampleState n)

/-- A cache with room for two states in memory and for two more on disk. The last hash was
inserted before, but is no longer there. -/
theorem wellFormed_of_run_reinserted :
    ∃ ops s, Run (Guarded Fresh StatesStep) (new 2 3) ops s ∧ s.present = [5, 1] ∧
      s.oldestOnDisk = [3, 4] ∧ s.WellFormed := by
  let ops : List StatesOp :=
    [sampleInsert 1 1, sampleInsert 2 2, sampleInsert 3 3, .updateIntervalMineBlockTime
      ascendingDbOrder 5, sampleInsert 4 4, sampleInsert 5 5, sampleInsert 1 6]
  have htest : ((ops.foldlM (fun s op => if fresh? s op then exec s op else none) (new 2 3)).map
      fun s => decide (s.present = [5, 1] ∧ s.oldestOnDisk = [3, 4])) = some true := by
    decide +kernel
  obtain ⟨s, hops, hpresent, hdisk⟩ := exists_of_map_decide htest
  have hrun : Run (Guarded Fresh StatesStep) (new 2 3) ops s :=
    Run.guarded_of_foldlM fresh_of_test hops
  exact ⟨ops, s, hrun, hpresent, hdisk, (wellFormed_of_run (by decide) hrun).1⟩

/-- A hash that is inserted again while it is in memory is listed twice. Once the first entry
is due, the state of the second is dropped: with room for three states, one is lost after two
others. And if the first one has just gone to disk, the hash is both there and in memory. -/
theorem reinserted_hash_is_lost :
    (([sampleInsert 1 1, sampleInsert 1 2].foldlM exec (new 3 0)).map fun s =>
      (s.present, s.states.keys.card)) = some ([1, 1], 1) ∧
    (([sampleInsert 1 1, sampleInsert 1 2, sampleInsert 2 3, sampleInsert 3 4].foldlM exec
      (new 3 0)).map fun s => (s.present, s.lookupState ascendingDbOrder 1)) =
        some ([1, 2, 3], none) ∧
    (([sampleInsert 1 1, sampleInsert 2 2, sampleInsert 1 3].foldlM exec (new 2 3)).map fun s =>
      (s.present, s.oldestOnDisk)) = some ([2, 1], [1]) := by
  decide +kernel

end InMemoryBlockStates

end BaseAnvil.Chain

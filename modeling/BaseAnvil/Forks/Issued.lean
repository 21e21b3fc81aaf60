import BaseAnvil.Forks.Runs

/-!
# BaseAnvil.Forks.Issued

Which snapshots a revert takes away.

The documentation of the backend says that a revert deletes the snapshot and all those
taken after it. The table of the snapshots has an operation that does so, but the backend
uses the one that removes a single entry, so whatever was taken later stays usable. Along
with a backend we keep the snapshots that it has issued (`Tracked`), and say what the
documentation asks of a sequence of operations (`Obeys`) and when it gets it.
-/

namespace BaseAnvil.Forks

open Lib Chain Word
open Pool (Address)

/-! ### Usable snapshots -/

namespace Backend

variable {host : Host} {b b' : Backend}

/-- A revert to the snapshot would succeed. -/
def Usable (host : Host) (b : Backend) (id : U256) : Prop :=
  ∃ current env action, (b.revertState host id current env action).1.isSome

theorem isSome_revertState (id : U256) (current : JournaledState) (env : Env) :
    (b.revertState host id current env action).1.isSome =
      (b.inner.stateSnapshots.get id).isSome := by
  cases hget : b.inner.stateSnapshots.get id with
  | none => rw [revertState_of_none hget]; rfl
  | some snapshot => rw [revertState_of_some hget]; rfl

theorem usable_iff {id : U256} : Usable host b id ↔ (b.inner.stateSnapshots.get id).isSome := by
  constructor
  · rintro ⟨current, env, action, hsome⟩
    rwa [isSome_revertState] at hsome
  · intro hsome
    refine ⟨.empty, sampleEnv, .revertKeep, ?_⟩
    rwa [isSome_revertState]

end Backend

/-! ### The snapshots issued so far -/

/-- A backend with the snapshots it has issued, oldest first. -/
structure Tracked where
  backend : Backend
  taken : List (U256 × BackendStateSnapshot)

namespace Tracked

variable {host : Host} {t t' t₀ : Tracked} {op : BackendOp} {ops : List BackendOp}

/-- `Backend::new`. -/
def new (host : Host) (persistentAccounts : Finset Address) (fork : Option (ForkId × DatabaseRef)) :
    Tracked :=
  ⟨.new host persistentAccounts fork, []⟩

def ids (t : Tracked) : List U256 := t.taken.map Prod.fst

def get (t : Tracked) (id : U256) : Option BackendStateSnapshot :=
  t.backend.inner.stateSnapshots.get id

def Usable (host : Host) (t : Tracked) (id : U256) : Prop := t.backend.Usable host id

def Step (host : Host) (t : Tracked) (op : BackendOp) (t' : Tracked) : Prop :=
  t.backend.Step host op t'.backend ∧ t'.taken = t.taken ++ (op.taking t.backend).toList

theorem usable_iff {id : U256} : t.Usable host id ↔ (t.get id).isSome := Backend.usable_iff

/-- Any run of a backend can be tracked. -/
theorem exists_run {b : Backend} (h : Run (Backend.Step host) t₀.backend ops b) :
    ∃ t, Run (Step host) t₀ ops t ∧ t.backend = b := by
  induction h with
  | nil => exact ⟨t₀, .nil, rfl⟩
  | @snoc ops b b' op _ hs ih =>
    obtain ⟨t, hr, rfl⟩ := ih
    exact ⟨⟨b', t.taken ++ (op.taking t.backend).toList⟩, .snoc hr ⟨hs, rfl⟩, rfl⟩

/-- A snapshot is taken under the next id, or none is and at most one goes. -/
theorem step_cases (h : Step host t op t') :
    (∃ snapshot, t'.taken = t.taken ++ [(t.backend.inner.stateSnapshots.id, snapshot)] ∧
      t'.backend.inner.stateSnapshots = (t.backend.inner.stateSnapshots.insert snapshot).2) ∨
    (t'.taken = t.taken ∧
      t'.backend.inner.stateSnapshots.id = t.backend.inner.stateSnapshots.id ∧
      ∀ k, t'.get k = if op.removed = some k then none else t.get k) := by
  obtain ⟨hstep, htaken⟩ := h
  rcases hstep.snapshots with ⟨snapshot, htaking, hsnap⟩ | ⟨htaking, hid, hget⟩
  · rw [htaking] at htaken
    exact Or.inl ⟨snapshot, htaken, hsnap⟩
  · rw [htaking, Option.toList_none, List.append_nil] at htaken
    exact Or.inr ⟨htaken, hid, hget⟩

/-- What the backend does to its snapshots keeps: whatever is usable is as it was taken, and
the counter is the number of snapshots taken until it saturates. -/
structure Counts (t : Tracked) : Prop where
  original : ∀ k snapshot, t.get k = some snapshot → (k, snapshot) ∈ t.taken
  counter : t.backend.inner.stateSnapshots.id.toNat = min t.taken.length (2 ^ 256 - 1)

theorem counts_new (host : Host) (persistentAccounts : Finset Address)
    (fork : Option (ForkId × DatabaseRef)) : (new host persistentAccounts fork).Counts := by
  have hnone : ∀ k, (new host persistentAccounts fork).get k = none := by
    intro k
    cases fork <;> exact Finmap.lookup_empty k
  refine ⟨fun k _ h => ?_, ?_⟩
  · cases (hnone k).symm.trans h
  · cases fork <;> rfl

theorem toNat_saturatingAdd_one_eq_min (a : U256) :
    (saturatingAdd a 1).toNat = min (a.toNat + 1) (2 ^ 256 - 1) := by
  by_cases h : a = BitVec.allOnes 256
  · subst h
    rfl
  · rw [toNat_saturatingAdd_one h]
    have hlt := (saturatingAdd a 1).isLt
    rw [toNat_saturatingAdd_one h] at hlt
    omega

theorem Counts.step (h : t.Counts) (hstep : Step host t op t') : t'.Counts := by
  rcases step_cases hstep with ⟨snapshot, htaken, hsnap⟩ | ⟨htaken, hid, hget⟩
  · refine ⟨fun k s hk => ?_, ?_⟩
    · rw [get, hsnap, StateSnapshots.get_insert] at hk
      rw [htaken]
      split at hk
      · rename_i heq
        cases hk
        simp [heq]
      · exact List.mem_append_left _ (h.original k s hk)
    · rw [hsnap, StateSnapshots.insert_id, toNat_saturatingAdd_one_eq_min, h.counter, htaken,
        List.length_append, List.length_singleton]
      omega
  · refine ⟨fun k s hk => ?_, by rw [hid, htaken, h.counter]⟩
    rw [hget] at hk
    rw [htaken]
    split at hk
    · cases hk
    · exact h.original k s hk

theorem counts_of_run (h₀ : t₀.Counts) (h : Run (Step host) t₀ ops t) : t.Counts :=
  h.keeps h₀ Counts.step

/-- Until there are as many snapshots as ids, no id is issued twice. -/
theorem distinct_of_run (h₀ : t₀.Counts) (hempty : t₀.taken = []) (h : Run (Step host) t₀ ops t) :
    t.taken.length ≤ 2 ^ 256 → t.ids.Nodup ∧ ∀ k ∈ t.ids, k.toNat < t.taken.length := by
  refine h.invariant_of (I := fun _ t => t.Counts) (J := fun _ t => t.taken.length ≤ 2 ^ 256 →
    t.ids.Nodup ∧ ∀ k ∈ t.ids, k.toNat < t.taken.length) (fun _ _ h => counts_of_run h₀ h) ?_ ?_
  · intro _
    simp [ids, hempty]
  · intro _ t op t' hcounts ih hstep hle
    rcases step_cases hstep with ⟨snapshot, htaken, -⟩ | ⟨htaken, -, -⟩
    · have hlength : t'.taken.length = t.taken.length + 1 := by simp [htaken]
      obtain ⟨hnodup, hlt⟩ := ih (by omega)
      have hnext : t.backend.inner.stateSnapshots.id.toNat = t.taken.length := by
        rw [hcounts.counter]
        omega
      have hids : t'.ids = t.ids ++ [t.backend.inner.stateSnapshots.id] := by simp [ids, htaken]
      rw [hids, hlength]
      refine ⟨List.nodup_append.mpr ⟨hnodup, List.nodup_singleton _, ?_⟩, ?_⟩
      · intro k hk k' hk' heq
        rw [List.mem_singleton.mp hk'] at heq
        have hlt := hlt k hk
        rw [heq, hnext] at hlt
        omega
      · intro k hk
        rcases List.mem_append.mp hk with hold | hnew
        · exact Nat.lt_succ_of_lt (hlt k hold)
        · rw [List.mem_singleton.mp hnew, hnext]
          omega
    · have hids : t'.ids = t.ids := by rw [ids, ids, htaken]
      rw [hids, htaken]
      exact ih (htaken ▸ hle)

theorem length_le_of_nodup (h : t.ids.Nodup) : t.taken.length ≤ 2 ^ 256 := by
  have hmap : (t.ids.map BitVec.toFin).Nodup :=
    h.map fun _ _ heq => BitVec.eq_of_toFin_eq heq
  have hle := hmap.length_le_card
  rw [Fintype.card_fin] at hle
  simpa [ids] using hle

/-! ### What the documentation asks for -/

/-- No id is issued twice, and what is usable is what was taken. A revert leaves alone what is
older than its snapshot, and the snapshot itself if it is to be kept. What is younger, and the
snapshot itself if it is to be removed, cannot be reverted to from then on. -/
structure Obeys (host : Host) (t₀ : Tracked) (ops : List BackendOp) : Prop where
  distinct : ∀ done rest t, ops = done ++ rest → Run (Step host) t₀ done t → t.ids.Nodup
  original : ∀ done rest t, ops = done ++ rest → Run (Step host) t₀ done t →
    ∀ k snapshot, t.get k = some snapshot → (k, snapshot) ∈ t.taken
  kept : ∀ done rest id current env action t t',
    ops = done ++ .revertState id current env action :: rest →
    Run (Step host) t₀ done t → t.Usable host id →
    Step host t (.revertState id current env action) t' →
    ∀ k, k < id ∨ k = id ∧ action = .revertKeep → t'.get k = t.get k
  gone : ∀ done mid rest id current env action t t' u,
    ops = done ++ .revertState id current env action :: (mid ++ rest) →
    Run (Step host) t₀ done t → t.Usable host id →
    Step host t (.revertState id current env action) t' → Run (Step host) t' mid u →
    ∀ k ∈ t.ids, id < k ∨ k = id ∧ action = .revertRemove → ¬u.Usable host k

/-- A revert to a snapshot that is there meets no younger one. -/
def RevertsLast (t : Tracked) : BackendOp → Prop
  | .revertState id _ _ _ => (t.get id).isSome → ∀ k, id < k → t.get k = none
  | _ => True

theorem exists_step_revertState (id : U256) (current : JournaledState)
    (env : Env) :
    ∃ t', Step host t (.revertState id current env action) t' :=
  ⟨⟨(t.backend.revertState host id current env action).2.1, t.taken⟩, rfl,
    (List.append_nil _).symm⟩

theorem get_of_revertState {id : U256} {current : JournaledState} {env : Env}
    {action : RevertStateSnapshotAction} (h : Step host t (.revertState id current env action) t')
    (k : U256) : t'.get k = if k = id ∧ action = .revertRemove then none else t.get k := by
  have hbackend : (t.backend.revertState host id current env action).2.1 = t'.backend :=
    Option.some.inj h.1
  unfold get
  rw [← hbackend]
  exact Backend.stateSnapshots_revertState id k

theorem ids_subset (h : Step host t op t') : t.ids ⊆ t'.ids := by
  unfold ids
  rw [h.2]
  simp

/-- What has been issued and is gone stays gone as long as no id is issued twice. -/
theorem get_eq_none_of_run {mid : List BackendOp} {u : Tracked} {k : U256} (hk : k ∈ t.ids)
    (hnone : t.get k = none) (h : Run (Step host) t mid u)
    (hdistinct : ∀ done rest v, mid = done ++ rest → Run (Step host) t done v → v.ids.Nodup) :
    k ∈ u.ids ∧ u.get k = none := by
  induction h with
  | nil => exact ⟨hk, hnone⟩
  | @snoc mid v v' op hr hs ih =>
    obtain ⟨hmem, hv⟩ := ih fun done rest w heq hw =>
      hdistinct done (rest ++ [op]) w (by rw [heq, List.append_assoc]) hw
    refine ⟨ids_subset hs hmem, ?_⟩
    rcases step_cases hs with ⟨snapshot, htaken, hsnap⟩ | ⟨-, -, hget⟩
    · -- the id of the new snapshot is another one
      have hnodup := hdistinct (mid ++ [op]) [] v' (List.append_nil _).symm (.snoc hr hs)
      have hids : v'.ids = v.ids ++ [v.backend.inner.stateSnapshots.id] := by simp [ids, htaken]
      rw [hids] at hnodup
      have hne : k ≠ v.backend.inner.stateSnapshots.id :=
        (List.nodup_append.mp hnodup).2.2 k hmem _ (List.mem_singleton_self _)
      rw [get, hsnap, StateSnapshots.get_insert, if_neg hne]
      exact hv
    · rw [hget, hv, ite_self]

/-- **Snapshots of a backend.** A backend obeys its documentation in those sequences of operations
that take no more than `2 ^ 256` snapshots and in which every revert is to the youngest snapshot
there is. A revert to an older one does not drop the younger ones. -/
theorem obeys_iff (host : Host) (persistentAccounts : Finset Address)
    (fork : Option (ForkId × DatabaseRef)) (ops : List BackendOp) :
    Obeys host (new host persistentAccounts fork) ops ↔
      (∀ done rest t, ops = done ++ rest →
        Run (Step host) (new host persistentAccounts fork) done t → t.taken.length ≤ 2 ^ 256) ∧
      Run.Along (Step host) (new host persistentAccounts fork) ops RevertsLast := by
  have hcounts := counts_new host persistentAccounts fork
  constructor
  · intro h
    refine ⟨fun done rest t hops hr => length_le_of_nodup (h.distinct done rest t hops hr), ?_⟩
    intro done t op rest hops hr
    cases op with
    | revertState id current env action =>
      intro hsome k hlt
      obtain ⟨t', hstep⟩ := exists_step_revertState id current env
      cases hk : t.get k with
      | none => rfl
      | some snapshot =>
        have hmem : k ∈ t.ids :=
          List.mem_map_of_mem ((counts_of_run hcounts hr).original k snapshot hk)
        have hne : k ≠ id := (BitVec.ne_of_lt hlt).symm
        have hgone := h.gone done [] rest id current env action t t' t' hops hr
          (usable_iff.mpr hsome) hstep .nil k hmem (Or.inl hlt)
        refine absurd (usable_iff.mpr ?_) hgone
        rw [get_of_revertState hstep, if_neg fun hand => hne hand.1, hk]
        rfl
    | _ => trivial
  · intro h
    obtain ⟨hlength, hlast⟩ := h
    have hdistinct : ∀ done rest t, ops = done ++ rest →
        Run (Step host) (new host persistentAccounts fork) done t → t.ids.Nodup :=
      fun done rest t hops hr => (distinct_of_run hcounts rfl hr (hlength done rest t hops hr)).1
    refine ⟨hdistinct, fun done rest t _ hr => (counts_of_run hcounts hr).original, ?_, ?_⟩
    · intro done rest id current env action t t' _ _ _ hstep k hk
      rw [get_of_revertState hstep, if_neg]
      rcases hk with hlt | ⟨-, rfl⟩
      · exact fun hand => BitVec.ne_of_lt hlt hand.1
      · exact nofun
    · intro done mid rest id current env action t t' u hops hr husable hstep hmid k hmem hk
      have hnone : t'.get k = none := by
        rw [get_of_revertState hstep]
        split
        · rfl
        · rename_i hnot
          rcases hk with hlt | hand
          · exact hlast done t _ _ hops hr (usable_iff.mp husable) k hlt
          · exact absurd hand hnot
      have hgone := get_eq_none_of_run (ids_subset hstep hmem) hnone hmid
        fun done' rest' v heq hv => hdistinct
          (done ++ .revertState id current env action :: done') (rest' ++ rest) v
          (by rw [hops, heq]; simp) (hr.append (.cons hstep hv))
      rw [usable_iff, hgone.2]
      simp

/-- Two snapshots are taken and the older one is reverted to: the younger one is still
usable. -/
theorem younger_survives : ¬Obeys sampleHost (new sampleHost ∅ none)
    [.snapshotState .empty sampleEnv, .snapshotState .empty sampleEnv,
      .revertState 0 .empty sampleEnv .revertRemove] := by
  intro h
  have hrun : ((([.snapshotState .empty sampleEnv, .snapshotState .empty sampleEnv] :
      List BackendOp).foldlM (Backend.exec sampleHost) (.new sampleHost ∅ none)).map fun b =>
      ((b.inner.stateSnapshots.get 0).isSome, (b.inner.stateSnapshots.get 1).isSome)) =
      some (true, true) := by
    decide +kernel
  obtain ⟨b, hb, heq⟩ := Option.map_eq_some_iff.mp hrun
  obtain ⟨h0, h1⟩ := Prod.mk.inj heq
  obtain ⟨t, hr, rfl⟩ := @exists_run sampleHost (new sampleHost ∅ none) _ b (.of_foldlM hb)
  obtain ⟨snapshot, hsome⟩ := Option.isSome_iff_exists.mp h1
  have hcounts := counts_of_run (counts_new sampleHost ∅ none) hr
  obtain ⟨t', hstep⟩ := exists_step_revertState 0 .empty sampleEnv
  refine h.gone _ [] [] 0 .empty sampleEnv .revertRemove t t' t' rfl hr (usable_iff.mpr h0) hstep
    .nil 1 (List.mem_map_of_mem (hcounts.original 1 snapshot hsome)) (Or.inl (by decide)) ?_
  rw [usable_iff, get_of_revertState hstep, if_neg (by decide)]
  exact h1

end Tracked

end BaseAnvil.Forks

import BaseAnvil.Lib.HashMap
import BaseAnvil.Lib.Word

/-!
# BaseAnvil.Chain.Snapshots

Support for snapshotting different states (`evm/core/src/state_snapshot.rs`).

Ids are handed out in ascending order and never twice, until the counter saturates.
Taking a snapshot back also drops all those taken after it; the loop does so whether
or not the snapshot itself is there, and starts over at zero after the last id.
-/

namespace BaseAnvil.Chain

open Lib HashMap

abbrev U256 := BitVec 256

/-- Represents all state snapshots. -/
structure StateSnapshots (T : Type) where
  id : U256
  stateSnapshots : HashMap U256 T

namespace StateSnapshots

variable {T : Type}

/-- `StateSnapshots::default`. -/
def new : StateSnapshots T := ⟨0, ∅⟩

def nextId (s : StateSnapshots T) : U256 × StateSnapshots T :=
  (s.id, { s with id := Word.saturatingAdd s.id 1 })

def get (s : StateSnapshots T) (id : U256) : Option T := s.stateSnapshots.lookup id

/-- The loop of `remove`: drops the snapshots from `toRevert` on. -/
def removeFrom (s : StateSnapshots T) (toRevert : U256) : StateSnapshots T :=
  if _h : toRevert < s.id then
    removeFrom { s with stateSnapshots := s.stateSnapshots.erase toRevert } (toRevert + 1)
  else s
  termination_by s.id.toNat - toRevert.toNat
  decreasing_by
    have hlt : toRevert.toNat < s.id.toNat := BitVec.lt_def.mp _h
    rw [Word.toNat_add_one_of_lt _h]
    omega

/-- Removes the state snapshot with the given `id`, and any taken after it. -/
def remove (s : StateSnapshots T) (id : U256) : Option T × StateSnapshots T :=
  let snapshotState := s.stateSnapshots.lookup id
  let s := { s with stateSnapshots := s.stateSnapshots.erase id }
  (snapshotState, s.removeFrom (id + 1))

/-- Removes the state snapshot with the given `id`, but none after it. -/
def removeAt (s : StateSnapshots T) (id : U256) : Option T × StateSnapshots T :=
  (s.stateSnapshots.lookup id, { s with stateSnapshots := s.stateSnapshots.erase id })

/-- Inserts the new state snapshot and returns the id. -/
def insert (s : StateSnapshots T) (stateSnapshot : T) : U256 × StateSnapshots T :=
  let (id, s) := s.nextId
  (id, { s with stateSnapshots := s.stateSnapshots.insert id stateSnapshot })

/-- Inserts the new state snapshot at the given `id`. -/
def insertAt (s : StateSnapshots T) (stateSnapshot : T) (id : U256) : StateSnapshots T :=
  { s with stateSnapshots := s.stateSnapshots.insert id stateSnapshot }

/-! ### Lookups -/

variable (s : StateSnapshots T)
include s

@[simp] theorem removeFrom_id (k : U256) : (s.removeFrom k).id = s.id := by
  fun_induction removeFrom s k with
  | case1 s k h ih => rw [ih]
  | case2 s k h => rfl

theorem get_removeFrom (k : U256) :
    (s.removeFrom k).get j = if k ≤ j ∧ j < s.id then none else s.get j := by
  fun_induction removeFrom s k with
  | case1 s k h ih =>
    rw [ih]
    by_cases hj : j = k
    · subst hj
      have hpos : j ≤ j ∧ j < s.id := ⟨BitVec.le_refl _, h⟩
      rw [if_pos hpos]
      split
      · rfl
      · rw [get, Finmap.lookup_erase]
    · have hiff : k + 1 ≤ j ↔ k ≤ j := by
        rw [BitVec.le_def, BitVec.le_def, Word.toNat_add_one_of_lt h]
        have hne : j.toNat ≠ k.toNat := fun heq => hj (BitVec.eq_of_toNat_eq heq)
        omega
      simp only [hiff, get, Finmap.lookup_erase_ne hj]
  | case2 s k h =>
    rw [if_neg]
    intro hand
    have h₁ := BitVec.le_def.mp hand.1
    have h₂ := BitVec.lt_def.mp hand.2
    exact h (BitVec.lt_def.mpr (by omega))

variable {id : U256}

@[simp] theorem remove_fst : (s.remove id).1 = s.get id := rfl

@[simp] theorem remove_id : (s.remove id).2.id = s.id :=
  removeFrom_id _ _

/-- What is left: not the snapshot itself, nor those from the next id on. -/
theorem get_remove :
    (s.remove id).2.get j = if j = id ∨ (id + 1 ≤ j ∧ j < s.id) then none else s.get j := by
  show (removeFrom _ (id + 1)).get j = _
  rw [get_removeFrom]
  show (if id + 1 ≤ j ∧ j < s.id then none else (s.stateSnapshots.erase id).lookup j) = _
  rw [lookup_erase_ite]
  by_cases hj : j = id
  · simp [hj]
  · simp [hj, get]

theorem get_insert (t : T) :
    (s.insert t).2.get j = if j = s.id then some t else s.get j :=
  lookup_insert_ite _ _ _ _

@[simp] theorem removeAt_fst : (s.removeAt id).1 = s.get id :=
  rfl

@[simp] theorem removeAt_id : (s.removeAt id).2.id = s.id := rfl

theorem get_removeAt : (s.removeAt id).2.get j = if j = id then none else s.get j :=
  lookup_erase_ite _ _ _

theorem get_insertAt (t : T) :
    (s.insertAt t id).get j = if j = id then some t else s.get j :=
  lookup_insert_ite _ _ _ _

@[simp] theorem insert_id (t : T) : (s.insert t).2.id = Word.saturatingAdd s.id 1 := rfl

end StateSnapshots

end BaseAnvil.Chain

import Mathlib.Data.Finmap
import Mathlib.Data.List.Sort
import Mathlib.Tactic.Ring

/-!
# BaseAnvil.Lib.HashMap

Hash maps and hash sets.

A hash map is Mathlib's `Finmap`: finite, and equal as soon as every lookup
agrees. A hash set is a `Finset`. What neither of them has is the order in
which a hash table is walked, which a program can observe. That order is an
explicit `IterOrder`, so whatever is proved holds for every order.

The lookup lemmas are stated as one equation with an `if` for each update, and
`sumBy` is the size measure the termination arguments of worklist loops use.
-/

namespace BaseAnvil.Lib

open Finmap

/-- A finite map from `K` to `V`. -/
abbrev HashMap (K V : Type) := Finmap fun _ : K => V

namespace HashMap

variable {K V : Type} [DecidableEq K]

/-! ### Lookups after an update -/

theorem lookup_insert_ite (m : HashMap K V) (k k' : K) (v : V) :
    (m.insert k v).lookup k' = if k' = k then some v else m.lookup k' := by
  by_cases h : k' = k
  · subst h
    rw [if_pos rfl, lookup_insert]
  · rw [if_neg h, lookup_insert_of_ne _ h]

theorem lookup_erase_ite (m : HashMap K V) (k k' : K) :
    (m.erase k).lookup k' = if k' = k then none else m.lookup k' := by
  by_cases h : k' = k
  · subst h
    rw [if_pos rfl, lookup_erase]
  · rw [if_neg h, lookup_erase_ne h]

variable {k : K} {m : HashMap K V} {v : V}

theorem lookup_erase_eq_some {k' : K} :
    (m.erase k).lookup k' = some v ↔ k' ≠ k ∧ m.lookup k' = some v := by
  rw [lookup_erase_ite, Option.ite_none_left_eq_some]

/-- Keys with different values are different. -/
theorem ne_of_lookup {k' : K} {v' : V} (h : m.lookup k = some v) (h' : m.lookup k' = some v')
    (hne : v ≠ v') : k ≠ k' := by
  rintro rfl
  exact hne (Option.some.inj (h.symm.trans h'))

/-- Erasing a key that is not there changes nothing. -/
theorem erase_of_lookup_none (h : m.lookup k = none) : m.erase k = m := by
  refine ext_lookup fun k' => ?_
  rw [lookup_erase_ite]
  by_cases hk : k' = k
  · rw [if_pos hk, hk, h]
  · rw [if_neg hk]

/-- Erasing the first of the keys leaves the others. -/
theorem isSome_lookup_erase {rest : List K} (hnot : k ∉ rest)
    (h : ∀ k', (m.lookup k').isSome ↔ k' ∈ k :: rest) (k' : K) :
    ((m.erase k).lookup k').isSome ↔ k' ∈ rest := by
  rw [lookup_erase_ite]
  by_cases hk : k' = k
  · rw [if_pos hk, hk]
    simp [hnot]
  · rw [if_neg hk, h]
    simp [hk]

/-- Inserting a value adds its key. -/
theorem isSome_lookup_insert {l : List K} (h : ∀ k', (m.lookup k').isSome ↔ k' ∈ l) (k' : K) :
    ((m.insert k v).lookup k').isSome ↔ k' ∈ l ++ [k] := by
  rw [lookup_insert_ite]
  by_cases hk : k' = k
  · simp [hk]
  · rw [if_neg hk, h]
    simp [hk]

/-! ### Writing several entries -/

/-- The map with the entries of a list written to it, one after the other. -/
def insertAll (m : HashMap K V) (l : List (K × V)) : HashMap K V :=
  l.foldl (fun m e => m.insert e.1 e.2) m

/-- The value of the last entry for a key. -/
def lastValue (l : List (K × V)) (k : K) : Option V := (l.reverse.find? (·.1 = k)).map (·.2)

/-- The last entry for a key wins. -/
theorem lookup_insertAll (m : HashMap K V) (l : List (K × V)) (k : K) :
    (insertAll m l).lookup k = (lastValue l k).or (m.lookup k) := by
  induction l using List.reverseRecOn with
  | nil => rfl
  | append_singleton l e ih =>
    rw [insertAll, List.foldl_append, List.foldl_cons, List.foldl_nil, lookup_insert_ite]
    rw [insertAll] at ih
    rw [ih, lastValue, lastValue, List.reverse_append, List.reverse_singleton,
      List.singleton_append, List.find?_cons]
    by_cases hk : e.1 = k
    · simp [hk]
    · simp [hk, Ne.symm hk]

theorem lastValue_of_mem {l : List (K × V)} (huniq : ∀ v', (k, v') ∈ l → v' = v) (h : (k, v) ∈ l) :
    lastValue l k = some v := by
  rw [lastValue, Option.map_eq_some_iff]
  have hsome : (l.reverse.find? (·.1 = k)).isSome := by
    rw [List.find?_isSome]
    exact ⟨(k, v), List.mem_reverse.mpr h, by simp⟩
  obtain ⟨e, he⟩ := Option.isSome_iff_exists.mp hsome
  obtain ⟨k', v'⟩ := e
  have hk : k' = k := by simpa using List.find?_some he
  subst hk
  exact ⟨_, he, huniq v' (List.mem_reverse.mp (List.mem_of_find?_eq_some he))⟩

theorem lastValue_of_notMem {l : List (K × V)} (h : ∀ v, (k, v) ∉ l) : lastValue l k = none := by
  rw [lastValue, Option.map_eq_none_iff, List.find?_eq_none]
  rintro ⟨k', v⟩ hmem hk
  obtain rfl : k' = k := by simpa using hk
  exact h v (List.mem_reverse.mp hmem)

theorem lastValue_concat (l : List (K × V)) : lastValue (l ++ [(k, v)]) k = some v := by
  simp [lastValue]

/-! ### Sums over the values -/

/-- The sum of `f` over the values of a map. -/
def sumBy (f : V → Nat) (m : HashMap K V) : Nat :=
  (m.entries.map fun e => f e.2).sum

theorem sumBy_insert_of_none (h : m.lookup k = none) :
    sumBy f (m.insert k v) = f v + sumBy f m := by
  have hk : k ∉ m := lookup_eq_none.mp h
  unfold sumBy
  rw [entries_insert_of_notMem hk]
  simp

/-- Erasing a key takes its value out of the sum. -/
theorem sumBy_erase (f : V → Nat) (h : m.lookup k = some v) :
    f v + sumBy f (m.erase k) = sumBy f m := by
  have hm : m = (m.erase k).insert k v := by
    refine ext_lookup fun k' => ?_
    rw [lookup_insert_ite, lookup_erase_ite]
    by_cases hk : k' = k
    · rw [if_pos hk, hk, h]
    · rw [if_neg hk, if_neg hk]
  have hnone : (m.erase k).lookup k = none := lookup_erase k m
  rw [← sumBy_insert_of_none hnone, ← hm]

/-- Overwriting a value moves the sum by the difference of the two values. -/
theorem sumBy_insert (f : V → Nat) (v' : V) (h : m.lookup k = some v) :
    f v + sumBy f (m.insert k v') = f v' + sumBy f m := by
  have hm : m.insert k v' = (m.erase k).insert k v' := by
    refine ext_lookup fun k' => ?_
    rw [lookup_insert_ite, lookup_insert_ite, lookup_erase_ite]
    by_cases hk : k' = k
    · rw [if_pos hk, if_pos hk]
    · rw [if_neg hk, if_neg hk, if_neg hk]
  have hnone : (m.erase k).lookup k = none := lookup_erase k m
  rw [hm, sumBy_insert_of_none hnone, ← sumBy_erase f h]
  omega

/-- One value is at most the sum. -/
theorem le_sumBy (f : V → Nat) (h : m.lookup k = some v) : f v ≤ sumBy f m := by
  have := sumBy_erase f h
  omega

/-- `Extend::extend`: what the other map has is written over what was there. -/
def extend (m other : HashMap K V) : HashMap K V := other ∪ m

theorem lookup_extend (other : HashMap K V) :
    (m.extend other).lookup k = (other.lookup k).or (m.lookup k) := by
  cases hother : other.lookup k with
  | none =>
    refine lookup_union_right fun hmem => ?_
    rw [mem_iff, hother] at hmem
    obtain ⟨v, hv⟩ := hmem
    cases hv
  | some v => exact (lookup_union_left (mem_iff.mpr ⟨v, hother⟩)).trans hother

/-- A map with nothing in it has nothing to look up, and conversely. -/
theorem eq_empty_iff : m = ∅ ↔ ∀ k, m.lookup k = none := by
  constructor
  · rintro rfl k
    exact lookup_empty k
  · intro h
    exact ext_lookup fun k => by rw [h k, lookup_empty]

end HashMap

/-! ### Iteration order -/

/-- An order in which the elements of a hash set are walked: each element once.
Nothing else about the order is promised. -/
structure IterOrder (α : Type) where
  toList : Finset α → List α
  nodup : ∀ s, (toList s).Nodup
  mem_toList : ∀ s a, a ∈ toList s ↔ a ∈ s

namespace IterOrder

variable {α : Type}

variable {o : IterOrder α}

@[simp] theorem toList_empty : o.toList ∅ = [] := by
  refine List.eq_nil_iff_forall_not_mem.mpr fun a ha => ?_
  exact absurd ((o.mem_toList ∅ a).mp ha) (Finset.notMem_empty a)

/-- A one-element set is walked in the only way there is. -/
@[simp] theorem toList_singleton (a : α) : o.toList {a} = [a] := by
  refine List.perm_singleton.mp ?_
  refine (List.perm_ext_iff_of_nodup (o.nodup _) (List.nodup_singleton a)).mpr fun b => ?_
  rw [o.mem_toList, Finset.mem_singleton, List.mem_singleton]

theorem length_toList [DecidableEq α] (o : IterOrder α) (s : Finset α) :
    (o.toList s).length = s.card := by
  have hset : (o.toList s).toFinset = s := by
    ext a
    rw [List.mem_toFinset, o.mem_toList]
  rw [← List.toFinset_card_of_nodup (o.nodup s), hset]

/-- The order that walks one element last. -/
def withLast [DecidableEq α] (o : IterOrder α) (x : α) : IterOrder α where
  toList s := (o.toList s).filter (· ≠ x) ++ if x ∈ s then [x] else []
  nodup s := by
    refine List.Nodup.append ((o.nodup s).filter _) ?_ ?_
    · split <;> simp
    · intro a ha hx
      split at hx
      · simp [List.mem_singleton.mp hx] at ha
      · cases hx
  mem_toList s a := by
    by_cases hx : a = x
    · subst hx
      split <;> simp [*]
    · have hnot : a ∉ (if x ∈ s then [x] else []) := by
        split <;> simp [hx]
      simp [hx, hnot, o.mem_toList]

/-- The order that walks backwards. -/
def reversed (o : IterOrder α) : IterOrder α where
  toList s := (o.toList s).reverse
  nodup s := List.nodup_reverse.mpr (o.nodup s)
  mem_toList s a := List.mem_reverse.trans (o.mem_toList s a)

/-- The order that sorts the elements by a key that tells them apart. -/
def sortedBy {κ : Type} [LinearOrder κ] (key : α → κ) (hkey : Function.Injective key) :
    IterOrder α where
  toList s := Quot.liftOn s.1 (List.insertionSort fun a b => key a ≤ key b) fun l₁ l₂ h =>
    have : Std.Total fun a b : α => key a ≤ key b := ⟨fun a b => le_total (key a) (key b)⟩
    have : IsTrans α fun a b => key a ≤ key b := ⟨fun _ _ _ => le_trans⟩
    have : Std.Antisymm fun a b : α => key a ≤ key b :=
      ⟨fun _ _ hab hba => hkey (le_antisymm hab hba)⟩
    (((List.perm_insertionSort _ l₁).trans h).trans
      (List.perm_insertionSort _ l₂).symm).eq_of_pairwise'
      (List.pairwise_insertionSort _ _) (List.pairwise_insertionSort _ _)
  nodup s := by
    obtain ⟨⟨l⟩, hl⟩ := s
    exact (List.perm_insertionSort _ l).nodup_iff.mpr hl
  mem_toList s a := by
    obtain ⟨⟨l⟩, hl⟩ := s
    exact (List.perm_insertionSort _ l).mem_iff

end IterOrder

end BaseAnvil.Lib

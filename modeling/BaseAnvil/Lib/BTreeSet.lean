import Mathlib.Data.List.Pairwise

/-!
# BaseAnvil.Lib.BTreeSet

Ordered sets whose elements are compared by a function `cmp`.

Two elements that compare equal are the same element to the set: `insert` keeps
the one that is there already, and `remove` takes out whatever compares equal to
its argument. The set is the ascending list of its elements, and carries the
proof that it is ascending.
-/

namespace BaseAnvil.Lib

/-- A set of `α`s, in ascending order of `cmp`. -/
structure BTreeSet (α : Type) (cmp : α → α → Ordering) where
  toList : List α
  ascending : toList.Pairwise fun a b => cmp a b = .lt

namespace BTreeSet

variable {α : Type} {cmp : α → α → Ordering}

instance : Membership α (BTreeSet α cmp) := ⟨fun s a => a ∈ s.toList⟩

variable {a x : α} {s : BTreeSet α cmp}

theorem mem_def : a ∈ s ↔ a ∈ s.toList := Iff.rfl

/-- The set with no elements. -/
def empty : BTreeSet α cmp := ⟨[], List.Pairwise.nil⟩

@[simp] theorem notMem_empty : a ∉ (empty : BTreeSet α cmp) := by
  simp [mem_def, empty]

/-- Number of elements. -/
def len (s : BTreeSet α cmp) : Nat := s.toList.length

/-- Remove the element that compares equal to `a`, if there is one. -/
def remove (s : BTreeSet α cmp) (a : α) : BTreeSet α cmp where
  toList := s.toList.filter fun b => cmp b a != .eq
  ascending := s.ascending.filter _

theorem mem_remove {b : α} : b ∈ s.remove a ↔ b ∈ s ∧ cmp b a ≠ .eq := by
  simp [mem_def, remove]

/-- The greatest element. -/
def last? (s : BTreeSet α cmp) : Option α := s.toList.getLast?

theorem last?_eq_none : s.last? = none ↔ ∀ a, a ∉ s := by
  rw [last?, List.getLast?_eq_none_iff, List.eq_nil_iff_forall_not_mem]
  rfl

theorem mem_of_last? (h : s.last? = some a) : a ∈ s :=
  List.mem_of_getLast? h

/-- Everything else in the set is below its greatest element. -/
theorem lt_of_last? {b : α} (h : s.last? = some a) (hb : b ∈ s) (hne : b ≠ a) : cmp b a = .lt := by
  obtain ⟨pre, hpre⟩ := List.getLast?_eq_some_iff.mp h
  rw [mem_def, hpre] at hb
  have hasc := s.ascending
  rw [hpre, List.pairwise_append] at hasc
  rcases List.mem_append.mp hb with hb | hb
  · exact hasc.2.2 b hb a (List.mem_singleton.mpr rfl)
  · exact absurd (List.mem_singleton.mp hb) hne

/-! ### Insertion -/

/-- Insert into an ascending list, keeping an element that compares equal. -/
def insertList (cmp : α → α → Ordering) (a : α) : List α → List α
  | [] => [a]
  | b :: rest =>
    match cmp a b with
    | .lt => a :: b :: rest
    | .eq => b :: rest
    | .gt => b :: insertList cmp a rest

theorem mem_of_mem_insertList : ∀ {l : List α}, x ∈ insertList cmp a l → x = a ∨ x ∈ l
  | [], h => Or.inl (List.mem_singleton.mp h)
  | b :: rest, h => by
      unfold insertList at h
      split at h
      · exact List.mem_cons.mp h
      · exact Or.inr h
      · rcases List.mem_cons.mp h with rfl | h
        · exact Or.inr List.mem_cons_self
        · exact (mem_of_mem_insertList h).imp_right (List.mem_cons_of_mem b)

variable [Std.TransCmp cmp]

/-- Taking one element out makes the set shorter. -/
theorem len_remove_lt (h : a ∈ s) : (s.remove a).len < s.len := by
  refine List.length_filter_lt_length_iff_exists.mpr ⟨a, h, ?_⟩
  simp [Std.ReflCmp.compare_self]

theorem insertList_ascending (a : α) :
    ∀ {l : List α}, l.Pairwise (fun a b => cmp a b = .lt) →
      (insertList cmp a l).Pairwise fun a b => cmp a b = .lt
  | [], _ => List.pairwise_singleton _ _
  | b :: rest, h => by
      have hb := List.pairwise_cons.mp h
      unfold insertList
      split
      · rename_i hlt
        refine List.pairwise_cons.mpr ⟨fun x hx => ?_, h⟩
        rcases List.mem_cons.mp hx with rfl | hx
        · exact hlt
        · exact Std.TransCmp.lt_trans hlt (hb.1 x hx)
      · exact h
      · rename_i hgt
        refine List.pairwise_cons.mpr ⟨fun x hx => ?_, insertList_ascending a hb.2⟩
        rcases mem_of_mem_insertList hx with rfl | hx
        · exact Std.OrientedCmp.lt_of_gt hgt
        · exact hb.1 x hx

/-- Add `a`, unless an element that compares equal is there. -/
def insert (s : BTreeSet α cmp) (a : α) : BTreeSet α cmp where
  toList := insertList cmp a s.toList
  ascending := insertList_ascending a s.ascending

theorem mem_insertList : ∀ {l : List α}, l.Pairwise (fun a b => cmp a b = .lt) →
    (x ∈ insertList cmp a l ↔ x ∈ l ∨ (x = a ∧ ∀ b ∈ l, cmp b a ≠ .eq))
  | [], _ => by simp [insertList]
  | b :: rest, h => by
      have hb := List.pairwise_cons.mp h
      unfold insertList
      split
      · rename_i hlt
        -- `a` goes in front: it is below everything in the list
        have hne : ∀ c ∈ b :: rest, cmp c a ≠ .eq := by
          intro c hc heq
          have hac : cmp a c = .lt := by
            rcases List.mem_cons.mp hc with rfl | hc
            · exact hlt
            · exact Std.TransCmp.lt_trans hlt (hb.1 c hc)
          rw [Std.OrientedCmp.eq_symm heq] at hac
          exact absurd hac (by decide)
        constructor
        · intro hx
          rcases List.mem_cons.mp hx with rfl | hx
          · exact Or.inr ⟨rfl, hne⟩
          · exact Or.inl hx
        · rintro (hx | ⟨rfl, -⟩)
          · exact List.mem_cons_of_mem a hx
          · exact List.mem_cons_self
      · rename_i heq
        constructor
        · exact Or.inl
        · rintro (hx | ⟨rfl, hne⟩)
          · exact hx
          · exact absurd (Std.OrientedCmp.eq_symm heq) (hne b List.mem_cons_self)
      · rename_i hgt
        have hba : cmp b a ≠ .eq := by
          rw [Std.OrientedCmp.lt_of_gt hgt]
          decide
        rw [List.mem_cons, mem_insertList hb.2, List.mem_cons, List.forall_mem_cons]
        constructor
        · rintro (rfl | hx | ⟨rfl, hne⟩)
          · exact Or.inl (Or.inl rfl)
          · exact Or.inl (Or.inr hx)
          · exact Or.inr ⟨rfl, hba, hne⟩
        · rintro ((rfl | hx) | ⟨rfl, -, hne⟩)
          · exact Or.inl rfl
          · exact Or.inr (Or.inl hx)
          · exact Or.inr (Or.inr ⟨rfl, hne⟩)

theorem mem_insert : x ∈ s.insert a ↔ x ∈ s ∨ (x = a ∧ ∀ b ∈ s, cmp b a ≠ .eq) :=
  mem_insertList s.ascending

end BTreeSet

end BaseAnvil.Lib

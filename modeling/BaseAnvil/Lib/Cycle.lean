import Mathlib.Data.Set.Finite.Basic
import Mathlib.Order.WellFounded

/-!
# BaseAnvil.Lib.Cycle

Cycles of a relation within a set, and taking elements away until none is left.

A finite set without a cycle has an element from which nothing leads to the set (`exists_sink`), and
taking such an element away neither opens nor closes a cycle (`cyclic_diff_iff`): so the elements
can be taken away one by one exactly if there is no cycle, in whichever order they are picked.
-/

namespace BaseAnvil.Lib

open Relation

variable {α : Type}

/-- The relation `r` between elements of `s`. -/
def Within (r : α → α → Prop) (s : Set α) (a b : α) : Prop := a ∈ s ∧ b ∈ s ∧ r a b

/-- Some element of `s` comes back to itself without leaving `s`. -/
def Cyclic (r : α → α → Prop) (s : Set α) : Prop := ∃ a, TransGen (Within r s) a a

variable {r : α → α → Prop} {s t : Set α}

theorem Cyclic.mono (hst : s ⊆ t) (h : Cyclic r s) : Cyclic r t := by
  obtain ⟨a, ha⟩ := h
  exact ⟨a, ha.lift id fun x y hxy => ⟨hst hxy.1, hst hxy.2.1, hxy.2.2⟩⟩

theorem not_cyclic_empty : ¬ Cyclic r ∅ := by
  rintro ⟨a, ha⟩
  obtain ⟨b, hab, -⟩ := TransGen.head'_iff.mp ha
  exact hab.1

theorem exists_sink (hfin : s.Finite) (hne : s.Nonempty) (hacyclic : ¬ Cyclic r s) :
    ∃ a ∈ s, ∀ b ∈ s, ¬ r a b := by
  have : Finite s := hfin
  -- being reachable is a strict order on `s`, and its least elements are the sinks
  let after : s → s → Prop := fun b a => TransGen (Within r s) a b
  have : IsTrans s after := ⟨fun a b c hab hbc => hbc.trans hab⟩
  have : Std.Irrefl after := ⟨fun a ha => hacyclic ⟨a, ha⟩⟩
  have hwf : WellFounded after := Finite.wellFounded_of_trans_of_irrefl after
  obtain ⟨a, ha⟩ := hne
  obtain ⟨least, -, hleast⟩ := hwf.has_min Set.univ ⟨⟨a, ha⟩, trivial⟩
  refine ⟨least, least.2, fun b hb hr => ?_⟩
  exact hleast ⟨b, hb⟩ trivial (.single ⟨least.2, hb, hr⟩)

/-- A path whose last element leads on does not meet a sink. -/
theorem transGen_diff {a x y z : α} (hsink : ∀ b ∈ s, ¬ r a b) (hpath : TransGen (Within r s) x y)
    (hlast : Within r s y z) : TransGen (Within r (s \ {a})) x y := by
  have hne : ∀ {u v}, Within r s u v → u ≠ a := by
    rintro u v huv rfl
    exact hsink v huv.2.1 huv.2.2
  induction hpath generalizing z with
  | single hxy => exact .single ⟨⟨hxy.1, hne hxy⟩, ⟨hxy.2.1, hne hlast⟩, hxy.2.2⟩
  | tail _ hyw ih => exact (ih hyw).tail ⟨⟨hyw.1, hne hyw⟩, ⟨hyw.2.1, hne hlast⟩, hyw.2.2⟩

theorem cyclic_diff_iff {a : α} (hsink : ∀ b ∈ s, ¬ r a b) : Cyclic r (s \ {a}) ↔ Cyclic r s := by
  refine ⟨Cyclic.mono Set.sdiff_subset, ?_⟩
  rintro ⟨x, hx⟩
  obtain ⟨y, hxy, -⟩ := TransGen.head'_iff.mp hx
  exact ⟨x, transGen_diff hsink hx hxy⟩

end BaseAnvil.Lib

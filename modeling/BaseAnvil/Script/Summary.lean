import BaseAnvil.Script.Resume
import Mathlib.Algebra.Order.BigOperators.Group.List

/-!
# BaseAnvil.Script.Summary

What `BundledState::broadcast` reports when a sequence is done (`script/src/broadcast.rs`): the gas
of all receipts, their average price, and what was paid. The numbers are `u64`. There is no report
if one of them overflows, or if the receipts to divide by are none; and a price is cut to 64 bits.
-/

namespace BaseAnvil.Script

open Lib

/-- A `u64`, or an overflow. -/
def u64 (n : Nat) : Option Nat := if n < 2 ^ 64 then some n else none

/-- One receipt: its gas used, and its effective gas price, which is a `u128`. -/
def addCost (acc : Nat × Nat × Nat) (receipt : Nat × Nat) : Option (Nat × Nat × Nat) := do
  let gasPrice := receipt.2 % 2 ^ 64
  let gas ← u64 (acc.1 + receipt.1)
  let price ← u64 (acc.2.1 + gasPrice)
  let product ← u64 (receipt.1 * gasPrice)
  let paid ← u64 (acc.2.2 + product)
  some (gas, price, paid)

/-- The total gas, the average gas price and the total paid. -/
def costSummary (receipts : List (Nat × Nat)) : Option (Nat × Nat × Nat) := do
  let totals ← receipts.foldlM addCost (0, 0, 0)
  if receipts.length = 0 then none
  else some (totals.1, totals.2.1 / receipts.length, totals.2.2)

/-- The three totals as they should be. -/
def totals (receipts : List (Nat × Nat)) : Nat × Nat × Nat :=
  ((receipts.map (·.1)).sum, (receipts.map (·.2)).sum, (receipts.map fun r => r.1 * r.2).sum)

/-- All of them are below `2 ^ 64`. -/
def Fits (t : Nat × Nat × Nat) : Prop := t.1 < 2 ^ 64 ∧ t.2.1 < 2 ^ 64 ∧ t.2.2 < 2 ^ 64

variable {receipts : List (Nat × Nat)} {acc t : Nat × Nat × Nat} {n m : Nat}

@[simp] theorem u64_eq_some : u64 n = some m ↔ n < 2 ^ 64 ∧ n = m := by
  simp [u64]

@[simp] theorem totals_nil : totals [] = 0 := rfl

@[simp] theorem totals_cons (r : Nat × Nat) :
    totals (r :: receipts) = (r.1, r.2, r.1 * r.2) + totals receipts := by
  simp [totals]

theorem addCost_eq_some {r : Nat × Nat} (h : r.2 < 2 ^ 64) :
    addCost acc r = some t ↔
      Fits (acc + (r.1, r.2, r.1 * r.2)) ∧ acc + (r.1, r.2, r.1 * r.2) = t := by
  obtain ⟨gas, price, paid⟩ := acc
  simp only [addCost, Nat.mod_eq_of_lt h, Option.bind_eq_bind, Option.bind_eq_some_iff, u64_eq_some,
    Fits]
  constructor
  · rintro ⟨_, ⟨hgas, rfl⟩, _, ⟨hprice, rfl⟩, _, ⟨-, rfl⟩, _, ⟨hpaid, rfl⟩, hsome⟩
    exact ⟨⟨hgas, hprice, hpaid⟩, Option.some.inj hsome⟩
  · rintro ⟨⟨hgas, hprice, hpaid⟩, rfl⟩
    exact ⟨_, ⟨hgas, rfl⟩, _, ⟨hprice, rfl⟩, _, ⟨lt_of_le_of_lt (Nat.le_add_left _ _) hpaid, rfl⟩,
      _, ⟨hpaid, rfl⟩, rfl⟩

/-- The sums only grow, so the last ones decide. -/
theorem foldlM_addCost_eq_some (h : ∀ r ∈ receipts, r.2 < 2 ^ 64) (hacc : Fits acc) :
    receipts.foldlM addCost acc = some t ↔
      Fits (acc + totals receipts) ∧ acc + totals receipts = t := by
  induction receipts generalizing acc with
  | nil => simp [hacc]
  | cons r rest ih =>
    have hrest := fun r hr => h r (List.mem_cons_of_mem _ hr)
    rw [totals_cons, ← add_assoc, List.foldlM_cons, Option.bind_eq_bind, Option.bind_eq_some_iff]
    simp only [addCost_eq_some (h r List.mem_cons_self)]
    constructor
    · rintro ⟨_, ⟨hfits, rfl⟩, hfold⟩
      exact (ih hrest hfits).mp hfold
    · intro hfits
      have hle : Fits (acc + (r.1, r.2, r.1 * r.2)) :=
        ⟨lt_of_le_of_lt (Nat.le_add_right _ _) hfits.1.1,
          lt_of_le_of_lt (Nat.le_add_right _ _) hfits.1.2.1,
          lt_of_le_of_lt (Nat.le_add_right _ _) hfits.1.2.2⟩
      exact ⟨_, ⟨hle, rfl⟩, (ih hrest hle).mpr hfits⟩

/-- **The summary.** Whatever was sent and dropped before, no price is cut and the report is exact
if and only if there is a receipt and the three totals fit. -/
theorem costSummary_exact_iff (receipts : List (Nat × Nat)) :
    ((∀ r ∈ receipts, r.2 < 2 ^ 64) ∧ costSummary receipts = some ((totals receipts).1,
        (totals receipts).2.1 / receipts.length, (totals receipts).2.2)) ↔
      receipts ≠ [] ∧ Fits (totals receipts) := by
  constructor
  · rintro ⟨hprices, hsummary⟩
    obtain ⟨t, hfold, hrest⟩ := Option.bind_eq_some_iff.mp hsummary
    refine ⟨?_, ?_⟩
    · rintro rfl
      cases hrest
    · rw [← zero_add (totals receipts)]
      exact ((foldlM_addCost_eq_some hprices ⟨by decide, by decide, by decide⟩).mp hfold).1
  · rintro ⟨hne, hfits⟩
    have hprices : ∀ r ∈ receipts, r.2 < 2 ^ 64 := fun r hr =>
      lt_of_le_of_lt (List.le_sum_of_mem (List.mem_map_of_mem hr)) hfits.2.1
    rw [← zero_add (totals receipts)] at hfits
    have hfold := (foldlM_addCost_eq_some hprices ⟨by decide, by decide, by decide⟩).mpr
      ⟨hfits, rfl⟩
    refine ⟨hprices, Option.bind_eq_some_iff.mpr ⟨_, hfold, ?_⟩⟩
    rw [if_neg (List.length_eq_zero_iff.not.mpr hne), zero_add]

/-- Both of two transactions are dropped. The last batch is done, there was no error, and there is
nothing to divide by. -/
theorem not_costSummary :
    ∃ transactions chain events m args sequence hash loop,
      Run Machine.Step (Machine.initial transactions chain) events m ∧
      m.process = some ⟨args, sequence, .waiting [hash] false (some loop)⟩ ∧ loop.tasks = [] ∧
      ∀ cost, costSummary ((sequence.check hash .dropped).save.receipts.map cost) = none :=
  ⟨samplePair, 1, sampleSends ++ [.check 0xaa .dropped], _, sampleArgs, _, 0xbb, _,
    Run.of_foldlM rfl, rfl, rfl, fun _ => rfl⟩

end BaseAnvil.Script

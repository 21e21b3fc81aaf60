import Mathlib.Order.Basic

/-!
# BaseAnvil.Lib.Loop

`while` loops over a state, as a relation between the state before and the state after.

`Loop guard body s t`: from `s` the loop ends in `t`. A loop that does not end is related to
nothing, so that it ends is `∃ t, Loop guard body s t`.
-/

namespace BaseAnvil.Lib

variable {σ : Type}

inductive Loop (guard : σ → Bool) (body : σ → σ) : σ → σ → Prop
  | done {s : σ} : guard s = false → Loop guard body s s
  | next {s t : σ} : guard s = true → Loop guard body (body s) t → Loop guard body s t

/-- The loop comes by `t`. -/
inductive Visits (guard : σ → Bool) (body : σ → σ) : σ → σ → Prop
  | here {s : σ} : Visits guard body s s
  | next {s t : σ} : guard s = true → Visits guard body (body s) t → Visits guard body s t

namespace Loop

variable {guard : σ → Bool} {body : σ → σ} {s t : σ}

theorem exists_next_iff (hguard : guard s = true) :
    (∃ t, Loop guard body s t) ↔ ∃ t, Loop guard body (body s) t := by
  refine ⟨?_, fun h => h.imp fun _ => .next hguard⟩
  rintro ⟨t, h⟩
  cases h with
  | done hstopped => exact absurd (hguard.symm.trans hstopped) (by decide)
  | next _ h => exact ⟨t, h⟩

variable {I : σ → Prop}

/-- A loop ends if something decreases as long as an invariant holds, which it keeps. -/
theorem exists_of_measure (I : σ → Prop) (measure : σ → Nat)
    (hstep : ∀ s, I s → guard s = true → I (body s) ∧ measure (body s) < measure s) (h : I s) :
    ∃ t, Loop guard body s t := by
  induction hn : measure s using Nat.strongRecOn generalizing s with
  | ind n ih =>
    cases hguard : guard s with
    | false => exact ⟨s, .done hguard⟩
    | true =>
      obtain ⟨hI, hlt⟩ := hstep s h hguard
      exact (exists_next_iff hguard).mpr (ih _ (hn ▸ hlt) hI rfl)

/-- What the body keeps holds at the end. -/
theorem invariant (hstep : ∀ s, I s → guard s = true → I (body s)) (h₀ : I s)
    (h : Loop guard body s t) : I t := by
  induction h with
  | done => exact h₀
  | next hguard _ ih => exact ih (hstep _ h₀ hguard)

/-- A loop does not end where the guard holds and goes on holding. -/
theorem not_of_invariant (I : σ → Prop) (hstep : ∀ s, I s → guard s = true ∧ I (body s))
    (h₀ : I s) : ¬∃ t, Loop guard body s t := by
  rintro ⟨t, h⟩
  induction h with
  | done hguard => exact absurd (hguard.symm.trans (hstep _ h₀).1) (by decide)
  | next _ _ ih => exact ih (hstep _ h₀).2

end Loop

namespace Visits

variable {guard : σ → Bool} {body : σ → σ} {s : σ} {P : σ → Prop}

/-- A loop that stops comes by nothing else. -/
theorem forall_iff_of_done (hguard : guard s = false) :
    (∀ t, Visits guard body s t → P t) ↔ P s := by
  refine ⟨fun h => h s .here, fun h t ht => ?_⟩
  cases ht with
  | here => exact h
  | next hgoing => exact absurd (hguard.symm.trans hgoing) (by decide)

/-- A loop that goes on comes by what it comes by after one round. -/
theorem forall_iff_of_next (hguard : guard s = true) :
    (∀ t, Visits guard body s t → P t) ↔ P s ∧ ∀ t, Visits guard body (body s) t → P t := by
  refine ⟨fun h => ⟨h s .here, fun t ht => h t (.next hguard ht)⟩, fun h t ht => ?_⟩
  cases ht with
  | here => exact h.1
  | next _ ht => exact h.2 t ht

end Visits

end BaseAnvil.Lib

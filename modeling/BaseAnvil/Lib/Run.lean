import Mathlib.Data.List.Induction

/-!
# BaseAnvil.Lib.Run

Runs of a labelled transition system, with the labels taken so far.

`Run step s₀ ls s`: from `s₀` the labels `ls`, in this order, lead to `s`. A
guard on the steps is a second relation, `Guarded`, so a run whose steps all
meet a condition is a run of `Guarded cond step`.
-/

namespace BaseAnvil.Lib

variable {σ ι : Type}

/-- `s` is reached from `s₀` by steps labelled `ls`, oldest first. -/
inductive Run (step : σ → ι → σ → Prop) (s₀ : σ) : List ι → σ → Prop
  | nil : Run step s₀ [] s₀
  | snoc {ls : List ι} {s s' : σ} {l : ι} :
      Run step s₀ ls s → step s l s' → Run step s₀ (ls ++ [l]) s'

/-- A result that passes a test. -/
theorem exists_of_map_decide {α : Type} {o : Option α} {P : α → Prop} [∀ a, Decidable (P a)]
    (h : (o.map fun a => decide (P a)) = some true) : ∃ a, o = some a ∧ P a := by
  obtain ⟨a, ha, hP⟩ := Option.map_eq_some_iff.mp h
  exact ⟨a, ha, of_decide_eq_true hP⟩

/-- The steps taken in a state, and with a label, that meet `cond`. -/
def Guarded (cond : σ → ι → Prop) (step : σ → ι → σ → Prop) (s : σ) (l : ι) (s' : σ) : Prop :=
  cond s l ∧ step s l s'

namespace Run

variable {step : σ → ι → σ → Prop} {s₀ s : σ} {ls : List ι} {I : List ι → σ → Prop}

/-- What holds at the start and is kept by every step holds at the end. The
invariant may speak about the labels taken so far. -/
theorem invariant (h₀ : I [] s₀) (hstep : ∀ ls s l s', I ls s → step s l s' → I (ls ++ [l]) s')
    (h : Run step s₀ ls s) : I ls s := by
  induction h with
  | nil => exact h₀
  | snoc _ hs ih => exact hstep _ _ _ _ ih hs

/-- As `invariant`, for an invariant of the states alone. -/
theorem keeps {I : σ → Prop} (h : Run step s₀ ls s) (h₀ : I s₀)
    (hstep : ∀ {s l s'}, I s → step s l s' → I s') : I s :=
  h.invariant (I := fun _ => I) h₀ fun _ _ _ _ => hstep

/-- As `invariant`, for an invariant that only the labels of this run have to keep. -/
theorem invariant_mem (h₀ : I [] s₀) (h : Run step s₀ ls s)
    (hstep : ∀ ls' s l s', l ∈ ls → I ls' s → step s l s' → I (ls' ++ [l]) s') : I ls s := by
  induction h with
  | nil => exact h₀
  | @snoc ls s s' l _ hs ih =>
    refine hstep _ _ _ _ (List.mem_append_right _ List.mem_cons_self) (ih ?_) hs
    intro ls' s l' s' hl
    exact hstep ls' s l' s' (List.mem_append_left _ hl)

theorem append {s₁ : σ} {ls' : List ι} (h : Run step s₀ ls s₁) (h' : Run step s₁ ls' s) :
    Run step s₀ (ls ++ ls') s := by
  induction h' with
  | nil =>
    rw [List.append_nil]
    exact h
  | snoc _ hs ih =>
    rw [← List.append_assoc]
    exact .snoc ih hs

variable {l : ι}

theorem cons {s₁ : σ} (hs : step s₀ l s₁) (h : Run step s₁ ls s) : Run step s₀ (l :: ls) s :=
  append (.snoc .nil hs) h

/-- The last step of a run. -/
theorem snoc_inv (h : Run step s₀ (ls ++ [l]) s) : ∃ s₁, Run step s₀ ls s₁ ∧ step s₁ l s := by
  generalize hls : ls ++ [l] = ls' at h
  cases h with
  | nil => simp at hls
  | snoc hr hs =>
    obtain ⟨rfl, heq⟩ := List.append_inj' hls rfl
    cases heq
    exact ⟨_, hr, hs⟩

/-- A run comes in two parts. -/
theorem append_inv {ls' : List ι} (h : Run step s₀ (ls ++ ls') s) :
    ∃ s₁, Run step s₀ ls s₁ ∧ Run step s₁ ls' s := by
  induction ls' using List.reverseRecOn generalizing s with
  | nil =>
    rw [List.append_nil] at h
    exact ⟨s, h, .nil⟩
  | append_singleton ls' l ih =>
    rw [← List.append_assoc] at h
    obtain ⟨s₂, hr, hs⟩ := snoc_inv h
    obtain ⟨s₁, hr₁, hr₂⟩ := ih hr
    exact ⟨s₁, hr₁, .snoc hr₂ hs⟩

/-- Where steps lead to one state only, so do runs. -/
theorem deterministic (hdet : ∀ s l t t', step s l t → step s l t' → t = t') {t : σ}
    (h : Run step s₀ ls s) (h' : Run step s₀ ls t) : s = t := by
  induction h generalizing t with
  | nil =>
    generalize hls : ([] : List ι) = ls' at h'
    cases h' with
    | nil => rfl
    | snoc => simp at hls
  | snoc _ hs ih =>
    obtain ⟨t₁, hr, ht⟩ := snoc_inv h'
    cases ih hr
    exact hdet _ _ _ _ hs ht

/-- A run of a smaller relation is a run of a larger one. -/
theorem mono {step' : σ → ι → σ → Prop} (hsub : ∀ s l s', step s l s' → step' s l s')
    (h : Run step s₀ ls s) : Run step' s₀ ls s := by
  induction h with
  | nil => exact .nil
  | snoc _ hs ih => exact .snoc ih (hsub _ _ _ hs)

/-- Forget the guard. -/
theorem unguard {cond : σ → ι → Prop} (h : Run (Guarded cond step) s₀ ls s) : Run step s₀ ls s :=
  h.mono fun _ _ _ hs => hs.2

/-- An invariant of the steps, given one already known of every state reached. -/
theorem invariant_of {J : List ι → σ → Prop} (hI : ∀ ls s, Run step s₀ ls s → I ls s) (h₀ : J [] s₀)
    (hstep : ∀ ls s l s', I ls s → J ls s → step s l s' → J (ls ++ [l]) s') (h : Run step s₀ ls s) :
    J ls s := by
  induction h with
  | nil => exact h₀
  | snoc hr hs ih => exact hstep _ _ _ _ (hI _ _ hr) ih hs

variable {exec : σ → ι → Option σ}

/-- A run whose steps are those of a function that each passed a test. -/
theorem guarded_of_foldlM {cond : σ → ι → Prop} {test : σ → ι → Bool}
    (htest : ∀ s l, test s l = true → cond s l)
    (h : ls.foldlM (fun s l => if test s l then exec s l else none) s₀ = some s) :
    Run (Guarded cond fun s l s' => exec s l = some s') s₀ ls s := by
  induction ls generalizing s₀ with
  | nil =>
    cases h
    exact .nil
  | cons l ls ih =>
    rw [List.foldlM_cons] at h
    obtain ⟨s₁, hstep, hrest⟩ := Option.bind_eq_some_iff.mp h
    split at hstep
    · rename_i hl
      exact .cons ⟨htest s₀ l hl, hstep⟩ (ih hrest)
    · cases hstep

/-- A run whose steps are those of a function. -/
theorem of_foldlM (h : ls.foldlM exec s₀ = some s) :
    Run (fun s l s' => exec s l = some s') s₀ ls s := by
  refine unguard (@guarded_of_foldlM _ _ _ _ _ exec (fun _ _ => True) (fun _ _ => true) ?_ ?_)
  · exact fun _ _ _ => trivial
  · simpa using h

/-- Every step taken along `ls`, given by its source state and its label, meets `P`. -/
def Along (step : σ → ι → σ → Prop) (s₀ : σ) (ls : List ι) (P : σ → ι → Prop) : Prop :=
  ∀ done s l rest, ls = done ++ l :: rest → Run step s₀ done s → P s l

variable {I : σ → Prop}

/-- What steps that meet `P` keep holds wherever such steps lead. -/
theorem Along.invariant {P : σ → ι → Prop} (hP : Along step s₀ ls P) (h₀ : I s₀)
    (hstep : ∀ s l s', I s → P s l → step s l s' → I s') {done rest : List ι}
    (hls : ls = done ++ rest) (h : Run step s₀ done s) : I s := by
  induction h generalizing rest with
  | nil => exact h₀
  | @snoc done s s' l hr hs ih =>
    have hls' : ls = done ++ l :: rest := by rw [hls, List.append_assoc, List.singleton_append]
    exact hstep _ _ _ (ih hls') (hP _ _ _ _ hls' hr) hs

/-- Two conditions that agree where `I` holds hold along the same runs, if steps
that meet them keep `I`. -/
theorem along_iff {P Q : σ → ι → Prop} (h₀ : I s₀) (hiff : ∀ s l, I s → (P s l ↔ Q s l))
    (hstep : ∀ s l s', I s → P s l → step s l s' → I s') :
    Along step s₀ ls P ↔ Along step s₀ ls Q := by
  constructor
  · intro hP done s l rest hls hr
    exact (hiff s l (hP.invariant h₀ hstep hls hr)).mp (hP done s l rest hls hr)
  · intro hQ done s l rest hls hr
    have hI : I s := hQ.invariant h₀
      (fun s l s' hI hq hs => hstep s l s' hI ((hiff s l hI).mpr hq) hs) hls hr
    exact (hiff s l hI).mpr (hQ done s l rest hls hr)

variable (hdet : ∀ s l t t', step s l t → step s l t' → t = t')
include hdet

variable {P : σ → ι → Prop} (h : Run step s₀ ls s)
include h

/-- A run that goes one step further meets `Q` along the way up to there, and then once more. -/
theorem forall_along_snoc {Q : List ι → σ → ι → Prop} :
    (∀ done s l' rest, ls ++ [l] = done ++ l' :: rest → Run step s₀ done s → Q done s l') ↔
      (∀ done s l' rest, ls = done ++ l' :: rest → Run step s₀ done s → Q done s l') ∧
        Q ls s l := by
  constructor
  · intro hP
    refine ⟨fun done s₁ l₁ rest hls hr => hP done s₁ l₁ (rest ++ [l]) ?_ hr, hP ls s l [] rfl h⟩
    rw [hls, List.append_assoc, List.cons_append]
  · rintro ⟨hP, hl⟩ done s₁ l₁ rest hls hr
    rcases List.eq_nil_or_concat rest with rfl | ⟨rest, l₂, rfl⟩
    · obtain ⟨rfl, heq⟩ := List.append_inj' hls rfl
      cases heq
      cases deterministic hdet h hr
      exact hl
    · rw [List.concat_eq_append, ← List.cons_append, ← List.append_assoc] at hls
      exact hP done s₁ l₁ rest (List.append_inj' hls rfl).1 hr

theorem along_snoc_iff : Along step s₀ (ls ++ [l]) P ↔ Along step s₀ ls P ∧ P s l :=
  forall_along_snoc (Q := fun _ => P) hdet h

variable {G : σ → Prop}

/-- A property of states that a step keeps exactly if it meets `P` tells whether all steps did.
It is enough to know this where an invariant holds. -/
theorem along_iff_of_invariant (hI₀ : I s₀) (hI : ∀ s l s', I s → step s l s' → I s') (h₀ : G s₀)
    (hstep : ∀ s l s', I s → step s l s' → (G s' ↔ G s ∧ P s l)) : G s ↔ Along step s₀ ls P := by
  have hinv : ∀ ls s, Run step s₀ ls s → I s := fun ls s hr =>
    hr.keeps hI₀ (hI _ _ _)
  induction h with
  | nil => exact iff_of_true h₀ fun done _ _ _ hls => absurd hls (by simp)
  | snoc hr hs ih =>
    rw [hstep _ _ _ (hinv _ _ hr) hs, along_snoc_iff hdet hr]
    exact and_congr_left' ih

theorem along_iff_of_step (h₀ : G s₀) (hstep : ∀ s l s', step s l s' → (G s' ↔ G s ∧ P s l)) :
    G s ↔ Along step s₀ ls P :=
  h.along_iff_of_invariant (I := fun _ => True) hdet trivial (fun _ _ _ _ _ => trivial) h₀
    fun s l s' _ => hstep s l s'

end Run

end BaseAnvil.Lib

import Mathlib.Data.Finset.Card

/-!
# BaseAnvil.Lib.Dfs

Depth-first search from an element, with a set of the elements seen so far.

The successors of an element may be missing, which ends the search with an error. The search is
given fuel for its depth, and `none` says that this was not enough; there is enough if it exceeds
the number of elements not seen yet (`visit_ne_none`). What a search adds is described by
`Explores`, which holds although the elements on the way to the current one have not been finished:
only what is added is closed under successors. From several elements (`visitFrom`), each search
starts from a closed set, and what is found in the end is what can be reached (`visitFrom_eq`).
-/

namespace BaseAnvil.Lib.Dfs

open Relation

variable {α ε : Type}

section

variable [DecidableEq α]

/-- Visit those of a list that have not been seen. -/
def visitAll (visit : α → Finset α → Option (Except ε (Finset α))) :
    List (Except ε α) → Finset α → Option (Except ε (Finset α))
  | [], seen => some (.ok seen)
  | .error e :: _, _ => some (.error e)
  | .ok b :: rest, seen =>
    if b ∈ seen then visitAll visit rest seen
    else
      match visit b (insert b seen) with
      | some (.ok seen) => visitAll visit rest seen
      | some (.error e) => some (.error e)
      | none => none

/-- Visit the successors of `a`. -/
def visit (succ : α → Except ε (List (Except ε α))) :
    Nat → α → Finset α → Option (Except ε (Finset α))
  | 0, _, _ => none
  | fuel + 1, a, seen =>
    match succ a with
    | .error e => some (.error e)
    | .ok nexts => visitAll (visit succ fuel) nexts seen

/-- Visit from several elements, one after the other. -/
def visitFrom (succ : α → Except ε (List (Except ε α))) (fuel : Nat) :
    List α → Finset α → Option (Except ε (Finset α))
  | [], seen => some (.ok seen)
  | a :: rest, seen =>
    match visit succ fuel a seen with
    | some (.ok seen) => visitFrom succ fuel rest seen
    | some (.error e) => some (.error e)
    | none => none

end

/-- `b` is a successor of `a`. -/
def Next (succ : α → Except ε (List (Except ε α))) (a b : α) : Prop :=
  ∃ nexts, succ a = .ok nexts ∧ .ok b ∈ nexts

/-- Looking for the successors of `a` meets the error `e`. -/
def Fails (succ : α → Except ε (List (Except ε α))) (a : α) (e : ε) : Prop :=
  succ a = .error e ∨ ∃ nexts, succ a = .ok nexts ∧ .error e ∈ nexts

/-- From `seen` to `seen'`, everything is added that can be reached from `starts`, and nothing
else. -/
structure Explores (succ : α → Except ε (List (Except ε α))) (starts : α → Prop)
    (seen seen' : Finset α) : Prop where
  subset : seen ⊆ seen'
  reached : ∀ b ∈ seen', b ∈ seen ∨ ∃ a, starts a ∧ ReflTransGen (Next succ) a b
  included : ∀ a, starts a → a ∈ seen'
  closed : ∀ b ∈ seen', b ∉ seen → ∀ c, Next succ b c → c ∈ seen'
  clean : ∀ b ∈ seen', b ∉ seen → ∀ e, ¬ Fails succ b e

/-- A set with all successors of its elements, none of which fails. -/
structure Closed (succ : α → Except ε (List (Except ε α))) (seen : Finset α) : Prop where
  next : ∀ b ∈ seen, ∀ c, Next succ b c → c ∈ seen
  clean : ∀ b ∈ seen, ∀ e, ¬ Fails succ b e

section

variable {succ : α → Except ε (List (Except ε α))}

theorem Closed.empty : Closed succ ∅ := ⟨by simp, by simp⟩

variable {a : α} {seen seen' nodes : Finset α} {nexts : List (Except ε α)} {fuel : Nat} {e : ε}
  {starts : List α}

/-- A closed set with the successors of `a` has everything that comes after `a`. -/
theorem Closed.mem_of_transGen {b : α} (h : Closed succ seen)
    (hstart : ∀ c, Next succ a c → c ∈ seen) (hb : TransGen (Next succ) a b) : b ∈ seen := by
  induction hb with
  | single hab => exact hstart _ hab
  | tail _ hbc ih => exact h.next _ ih _ hbc

theorem Explores.to_closed {starts : α → Prop} (h : Explores succ starts seen seen')
    (hseen : Closed succ seen) : Closed succ seen' := by
  refine ⟨fun b hb c hbc => ?_, fun b hb => ?_⟩
  · by_cases hold : b ∈ seen
    · exact h.subset (hseen.next b hold c hbc)
    · exact h.closed b hb hold c hbc
  · by_cases hold : b ∈ seen
    · exact hseen.clean b hold
    · exact h.clean b hb hold

theorem Explores.mono {starts starts' : α → Prop} (h : Explores succ starts seen seen')
    (hsame : ∀ a, starts' a → starts a ∨ a ∈ seen) (hsub : ∀ a, starts a → starts' a) :
    Explores succ starts' seen seen' := by
  refine ⟨h.subset, fun b hb => ?_, fun a ha => ?_, h.closed, h.clean⟩
  · exact (h.reached b hb).imp_right fun ⟨a, ha, hab⟩ => ⟨a, hsub a ha, hab⟩
  · exact (hsame a ha).elim (h.included a) fun hseen => h.subset hseen

variable [DecidableEq α]

/-- Exploring an element and what comes after it, and then the rest. -/
theorem Explores.cons {starts : α → Prop} {b : α} {seen₁ : Finset α}
    (hb : Explores succ (Next succ b) (insert b seen) seen₁) (hclean : ∀ e, ¬ Fails succ b e)
    (hrest : Explores succ starts seen₁ seen') :
    Explores succ (fun a => a = b ∨ starts a) seen seen' := by
  refine ⟨?_, ?_, ?_, ?_, ?_⟩
  · exact (Finset.subset_insert b seen).trans (hb.subset.trans hrest.subset)
  · intro c hc
    rcases hrest.reached c hc with hc | ⟨a, ha, hac⟩
    · rcases hb.reached c hc with hc | ⟨a, hba, hac⟩
      · rcases Finset.mem_insert.mp hc with rfl | hc
        · exact .inr ⟨c, .inl rfl, .refl⟩
        · exact .inl hc
      · exact .inr ⟨b, .inl rfl, .head hba hac⟩
    · exact .inr ⟨a, .inr ha, hac⟩
  · rintro a (rfl | ha)
    · exact hrest.subset (hb.subset (Finset.mem_insert_self a seen))
    · exact hrest.included a ha
  · intro c hc hnot d hcd
    by_cases hc₁ : c ∈ seen₁
    · by_cases hcb : c = b
      · exact hrest.subset (hb.included d (hcb ▸ hcd))
      · exact hrest.subset (hb.closed c hc₁ (by simp [hcb, hnot]) d hcd)
    · exact hrest.closed c hc hc₁ d hcd
  · intro c hc hnot
    by_cases hc₁ : c ∈ seen₁
    · by_cases hcb : c = b
      · exact hcb ▸ hclean
      · exact hb.clean c hc₁ (by simp [hcb, hnot])
    · exact hrest.clean c hc hc₁

theorem visitAll_explores {visit : α → Finset α → Option (Except ε (Finset α))}
    (hvisit : ∀ b seen seen', visit b seen = some (.ok seen') →
      Explores succ (Next succ b) seen seen' ∧ ∀ e, ¬ Fails succ b e)
    (h : visitAll visit nexts seen = some (.ok seen')) :
    Explores succ (fun a => .ok a ∈ nexts) seen seen' ∧ ∀ e, .error e ∉ nexts := by
  induction nexts generalizing seen with
  | nil =>
    cases h
    refine ⟨⟨subset_rfl, fun b hb => .inl hb, ?_, ?_, ?_⟩, ?_⟩ <;> simp +contextual
  | cons next rest ih =>
    cases next with
    | error e => cases h
    | ok b =>
      rw [visitAll] at h
      split at h
      next hseen =>
        obtain ⟨hrest, hno⟩ := ih h
        refine ⟨hrest.mono (fun a ha => ?_) fun a ha => List.mem_cons_of_mem _ ha,
          by simpa using hno⟩
        rcases List.mem_cons.mp ha with heq | ha
        · cases heq
          exact .inr hseen
        · exact .inl ha
      next =>
        cases hb : visit b (insert b seen) with
        | none =>
          rw [hb] at h
          cases h
        | some result =>
          rw [hb] at h
          cases result with
          | error e => cases h
          | ok seen₁ =>
            obtain ⟨hexplores, hclean⟩ := hvisit _ _ _ hb
            obtain ⟨hrest, hno⟩ := ih h
            refine ⟨(hexplores.cons hclean hrest).mono (fun a ha => ?_) ?_, by simpa using hno⟩
            · exact .inl ((List.mem_cons.mp ha).imp_left fun heq => Except.ok.inj heq)
            · rintro a (rfl | ha)
              · exact List.mem_cons_self
              · exact List.mem_cons_of_mem _ ha

/-- A search that succeeds explores the successors. -/
theorem visit_explores (h : visit succ fuel a seen = some (.ok seen')) :
    Explores succ (Next succ a) seen seen' ∧ ∀ e, ¬ Fails succ a e := by
  induction fuel generalizing a seen seen' with
  | zero => cases h
  | succ fuel ih =>
    rw [visit] at h
    cases hsucc : succ a with
    | error e =>
      rw [hsucc] at h
      cases h
    | ok nexts =>
      rw [hsucc] at h
      obtain ⟨hexplores, hno⟩ := visitAll_explores (fun b seen seen' hb => ih hb) h
      refine ⟨hexplores.mono ?_ fun b hb => ⟨nexts, hsucc, hb⟩, ?_⟩
      · rintro b ⟨nexts', heq, hb⟩
        cases hsucc.symm.trans heq
        exact .inl hb
      · rintro e (herr | ⟨nexts', heq, he⟩)
        · cases hsucc.symm.trans herr
        · cases hsucc.symm.trans heq
          exact hno e he

/-! ### Errors -/

theorem visitAll_error {visit : α → Finset α → Option (Except ε (Finset α))} {found : α → Prop}
    (hvisit : ∀ b seen, visit b seen = some (.error e) → found b)
    (h : visitAll visit nexts seen = some (.error e)) :
    .error e ∈ nexts ∨ ∃ b, .ok b ∈ nexts ∧ found b := by
  induction nexts generalizing seen with
  | nil => cases h
  | cons next rest ih =>
    have hlater : (.error e ∈ rest ∨ ∃ b, .ok b ∈ rest ∧ found b) →
        .error e ∈ next :: rest ∨ ∃ b, .ok b ∈ next :: rest ∧ found b := by
      rintro (he | ⟨c, hc, hfound⟩)
      · exact .inl (List.mem_cons_of_mem _ he)
      · exact .inr ⟨c, List.mem_cons_of_mem _ hc, hfound⟩
    cases next with
    | error e' =>
      cases h
      exact .inl List.mem_cons_self
    | ok b =>
      rw [visitAll] at h
      split at h
      next => exact hlater (ih h)
      next =>
        cases hb : visit b (insert b seen) with
        | none =>
          rw [hb] at h
          cases h
        | some result =>
          rw [hb] at h
          cases result with
          | error e' =>
            cases h
            exact .inr ⟨b, List.mem_cons_self, hvisit _ _ hb⟩
          | ok seen₁ => exact hlater (ih h)

/-- A search that fails has met the error at an element that can be reached. -/
theorem visit_error (h : visit succ fuel a seen = some (.error e)) :
    ∃ b, ReflTransGen (Next succ) a b ∧ Fails succ b e := by
  induction fuel generalizing a seen with
  | zero => cases h
  | succ fuel ih =>
    rw [visit] at h
    cases hsucc : succ a with
    | error e' =>
      rw [hsucc] at h
      cases h
      exact ⟨a, .refl, .inl hsucc⟩
    | ok nexts =>
      rw [hsucc] at h
      rcases visitAll_error (fun b seen hb => ih hb) h with he | ⟨b, hb, c, hbc, hfails⟩
      · exact ⟨a, .refl, .inr ⟨nexts, hsucc, he⟩⟩
      · exact ⟨c, .head ⟨nexts, hsucc, hb⟩ hbc, hfails⟩

/-! ### Fuel -/

theorem visitAll_ne_none (hnexts : ∀ b, .ok b ∈ nexts → b ∈ nodes)
    (hcard : (nodes \ seen).card ≤ fuel)
    (hvisit : ∀ b seen, (nodes \ seen).card < fuel → visit succ fuel b seen ≠ none) :
    visitAll (visit succ fuel) nexts seen ≠ none := by
  induction nexts generalizing seen with
  | nil => simp [visitAll]
  | cons next rest ih =>
    have hrest : ∀ b, .ok b ∈ rest → b ∈ nodes :=
      fun b hb => hnexts b (List.mem_cons_of_mem _ hb)
    cases next with
    | error e => simp [visitAll]
    | ok b =>
      rw [visitAll]
      split
      next => exact ih hrest hcard
      next hnew =>
        -- `b` is one of the nodes, so there is one fewer to see
        have hless : (nodes \ insert b seen).card < (nodes \ seen).card := by
          refine Finset.card_lt_card ⟨?_, fun hsub => ?_⟩
          · exact Finset.sdiff_subset_sdiff subset_rfl (Finset.subset_insert b seen)
          · have hmem := hsub (Finset.mem_sdiff.mpr ⟨hnexts b List.mem_cons_self, hnew⟩)
            simp at hmem
        cases hresult : visit succ fuel b (insert b seen) with
        | none => exact absurd hresult (hvisit b _ (by omega))
        | some result =>
          cases result with
          | error e => simp
          | ok seen₁ =>
            refine ih hrest ?_
            have hsub := (visit_explores hresult).1.subset
            have hle : (nodes \ seen₁).card ≤ (nodes \ insert b seen).card :=
              Finset.card_le_card (Finset.sdiff_subset_sdiff subset_rfl hsub)
            omega

/-- With fuel for all elements that have not been seen, a search ends. -/
theorem visit_ne_none (hnodes : ∀ a b, Next succ a b → b ∈ nodes)
    (hcard : (nodes \ seen).card < fuel) : visit succ fuel a seen ≠ none := by
  induction fuel generalizing a seen with
  | zero => omega
  | succ fuel ih =>
    rw [visit]
    cases hsucc : succ a with
    | error e => simp
    | ok nexts =>
      exact visitAll_ne_none (fun b hb => hnodes a b ⟨nexts, hsucc, hb⟩) (by omega)
        fun b seen hb => ih hb

theorem visitFrom_ne_none (hnodes : ∀ a b, Next succ a b → b ∈ nodes) (hcard : nodes.card < fuel) :
    visitFrom succ fuel starts seen ≠ none := by
  induction starts generalizing seen with
  | nil => simp [visitFrom]
  | cons a rest ih =>
    rw [visitFrom]
    have hle : (nodes \ seen).card ≤ nodes.card := Finset.card_le_card Finset.sdiff_subset
    cases hvisit : visit succ fuel a seen with
    | none => exact absurd hvisit (visit_ne_none hnodes (by omega))
    | some result =>
      cases result with
      | error e => simp
      | ok seen₁ => exact ih

/-! ### Several elements -/

/-- What a search from several elements finds is what can be reached from them in one or more
steps. -/
theorem visitFrom_eq (hclosed : Closed succ seen)
    (h : visitFrom succ fuel starts seen = some (.ok seen')) :
    (∀ b, b ∈ seen' ↔ b ∈ seen ∨ ∃ a ∈ starts, TransGen (Next succ) a b) ∧
      Closed succ seen' ∧ ∀ a ∈ starts, ∀ e, ¬ Fails succ a e := by
  induction starts generalizing seen with
  | nil =>
    cases h
    simp [hclosed]
  | cons a rest ih =>
    rw [visitFrom] at h
    cases hvisit : visit succ fuel a seen with
    | none =>
      rw [hvisit] at h
      cases h
    | some result =>
      cases result with
      | error e =>
        rw [hvisit] at h
        cases h
      | ok seen₁ =>
        rw [hvisit] at h
        obtain ⟨hexplores, hclean⟩ := visit_explores hvisit
        have hclosed₁ := hexplores.to_closed hclosed
        obtain ⟨hmem, hclosed', hrest⟩ := ih hclosed₁ h
        refine ⟨fun b => ?_, hclosed', ?_⟩
        · have hfirst : b ∈ seen₁ ↔ b ∈ seen ∨ TransGen (Next succ) a b := by
            constructor
            · intro hb
              refine (hexplores.reached b hb).imp_right ?_
              rintro ⟨c, hac, hcb⟩
              exact TransGen.head' hac hcb
            · rintro (hb | hb)
              · exact hexplores.subset hb
              · exact hclosed₁.mem_of_transGen hexplores.included hb
          rw [hmem, hfirst, or_assoc]
          simp
        · rintro c hc
          rcases List.mem_cons.mp hc with rfl | hc
          · exact hclean
          · exact hrest c hc

theorem visitFrom_error (h : visitFrom succ fuel starts seen = some (.error e)) :
    ∃ a ∈ starts, ∃ b, ReflTransGen (Next succ) a b ∧ Fails succ b e := by
  induction starts generalizing seen with
  | nil => cases h
  | cons a rest ih =>
    rw [visitFrom] at h
    cases hvisit : visit succ fuel a seen with
    | none =>
      rw [hvisit] at h
      cases h
    | some result =>
      cases result with
      | error e' =>
        rw [hvisit] at h
        cases h
        exact ⟨a, List.mem_cons_self, visit_error hvisit⟩
      | ok seen₁ =>
        rw [hvisit] at h
        obtain ⟨c, hc, hreach⟩ := ih h
        exact ⟨c, List.mem_cons_of_mem _ hc, hreach⟩

end

end BaseAnvil.Lib.Dfs

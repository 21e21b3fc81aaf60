import Mathlib.Data.List.Perm.Subperm
import Mathlib.Data.List.Count
import Mathlib.Order.Nat

/-!
# BaseAnvil.Lib.Assign

Assigning the elements of one list to those of another, none of them twice.

An assignment that exists bounds how often a property holds in the two lists; and where the
elements fall into classes that do not compete, it is enough that every class has enough
elements to choose from.
-/

namespace BaseAnvil.Lib

variable {α β κ : Type}

/-- Each element of `l` can be given an element of `m` that it is related to, and none of
them is given away twice. -/
def Assigns (r : α → β → Prop) (l : List α) (m : List β) : Prop :=
  ∃ given, List.Forall₂ r l given ∧ List.Subperm given m

/-- Fewer elements have the stronger of two properties, if one has the weaker one only. -/
theorem countP_lt_countP {p q : α → Bool} {l : List α} {a : α} (hpq : ∀ a ∈ l, p a → q a)
    (ha : a ∈ l) (hp : ¬ p a) (hq : q a) : l.countP p < l.countP q := by
  obtain ⟨before, after, rfl⟩ := List.append_of_mem ha
  have hbefore : before.countP p ≤ before.countP q :=
    List.countP_mono_left fun b hb => hpq b (by simp [hb])
  have hafter : after.countP p ≤ after.countP q :=
    List.countP_mono_left fun b hb => hpq b (by simp [hb])
  rw [List.countP_append, List.countP_append, List.countP_cons_of_neg hp,
    List.countP_cons_of_pos hq]
  omega

namespace Assigns

variable {r : α → β → Prop} {l : List α} {m : List β}

section

variable (h : Assigns r l m)
include h

theorem length_le : l.length ≤ m.length := by
  obtain ⟨given, hrel, hsub⟩ := h
  exact hrel.length_eq.trans_le hsub.length_le

/-- Elements with `p` are only given elements with `q`, so there are at least as many. -/
theorem countP_le {p : α → Bool} {q : β → Bool} (hpq : ∀ a ∈ l, ∀ b ∈ m, r a b → p a → q b) :
    l.countP p ≤ m.countP q := by
  obtain ⟨given, hrel, hsub⟩ := h
  have hgiven : ∀ a ∈ l, ∀ b ∈ given, r a b → p a → q b :=
    fun a ha b hb => hpq a ha b (hsub.subset hb)
  refine le_trans ?_ (hsub.countP_le q)
  clear hpq hsub
  induction hrel with
  | nil => simp
  | @cons a b l given hab hrel ih =>
    have ih' := ih fun a ha b hb =>
      hgiven a (List.mem_cons_of_mem _ ha) b (List.mem_cons_of_mem _ hb)
    have hhead := hgiven a List.mem_cons_self b List.mem_cons_self hab
    rw [List.countP_cons, List.countP_cons]
    split
    · rename_i hp
      rw [if_pos (hhead hp)]
      omega
    · omega

/-- Every element is related to one that it can be given. -/
theorem exists_rel {a : α} (ha : a ∈ l) : ∃ b ∈ m, r a b := by
  classical
  have hle : l.countP (fun x => decide (x = a)) ≤ m.countP fun b => decide (r a b) := by
    refine h.countP_le fun x _ b _ hxb hx => ?_
    cases of_decide_eq_true hx
    exact decide_eq_true hxb
  have hpos : 0 < l.countP fun x => decide (x = a) := List.countP_pos_iff.mpr ⟨a, ha, by simp⟩
  obtain ⟨b, hb, hab⟩ := List.countP_pos_iff.mp (hpos.trans_le hle)
  exact ⟨b, hb, of_decide_eq_true hab⟩

theorem mono {r' : α → β → Prop} (hsub : ∀ a ∈ l, ∀ b, r a b → r' a b) : Assigns r' l m := by
  obtain ⟨given, hrel, hsubperm⟩ := h
  refine ⟨given, ?_, hsubperm⟩
  clear hsubperm
  induction hrel with
  | nil => exact .nil
  | cons hab _ ih =>
    exact .cons (hsub _ List.mem_cons_self _ hab)
      (ih fun a ha => hsub a (List.mem_cons_of_mem _ ha))

end

/-- Elements of different classes do not compete. -/
theorem of_classes [DecidableEq β] [DecidableEq κ] {key : α → κ} {offers : κ → β → Bool}
    (happart : ∀ a ∈ l, ∀ a' ∈ l, ∀ b, offers (key a) b → offers (key a') b → key a = key a')
    (henough : ∀ a ∈ l, l.countP (key · = key a) ≤ m.countP (offers (key a))) :
    Assigns (fun a b => offers (key a) b) l m := by
  induction l generalizing m with
  | nil => exact ⟨[], .nil, List.nil_subperm⟩
  | cons a l ih =>
    -- the first element takes one of those its class is offered
    have hpos : 0 < m.countP (offers (key a)) := by
      refine lt_of_lt_of_le ?_ (henough a List.mem_cons_self)
      rw [List.countP_cons_of_pos (by simp)]
      omega
    obtain ⟨b, hb, hoffer⟩ := List.countP_pos_iff.mp hpos
    have hrest : ∀ a' ∈ l, l.countP (key · = key a') ≤ (m.erase b).countP (offers (key a')) := by
      intro a' ha'
      have hle := henough a' (List.mem_cons_of_mem _ ha')
      rw [List.countP_cons] at hle
      by_cases hkey : key a = key a'
      · rw [List.countP_erase, if_pos ⟨hb, hkey ▸ hoffer⟩]
        simp only [hkey, decide_true, if_true] at hle
        omega
      · have hnot : ¬ offers (key a') b := fun hoffer' =>
          hkey (happart a List.mem_cons_self a' (List.mem_cons_of_mem _ ha') b hoffer hoffer')
        rw [List.countP_erase, if_neg fun hif => hnot hif.2]
        omega
    obtain ⟨given, hrel, hsub⟩ := ih
      (fun a ha a' ha' => happart a (List.mem_cons_of_mem _ ha) a' (List.mem_cons_of_mem _ ha'))
      hrest
    refine ⟨b :: given, .cons hoffer hrel, ?_⟩
    exact (List.subperm_cons b |>.mpr hsub).trans (List.perm_cons_erase hb).symm.subperm

end Assigns

end BaseAnvil.Lib

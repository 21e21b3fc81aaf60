import Mathlib.Data.BitVec
import Mathlib.Tactic.Ring

/-!
# BaseAnvil.Lib.Word

Saturating arithmetic and conversions of fixed-width words: `u64` is `UInt64`,
wider words are bit vectors. Plain `+` and `-` on either wrap.
-/

namespace BaseAnvil.Lib

/-! ### 64-bit words -/

namespace U64

/-- `u64::MAX`. -/
def max : UInt64 := 0xffffffffffffffff

theorem toNat_max : max.toNat = 2 ^ 64 - 1 := rfl

/-- `u64::saturating_add`. -/
def saturatingAdd (a b : UInt64) : UInt64 :=
  if a.toNat + b.toNat < 2 ^ 64 then a + b else max

/-- `u64::saturating_sub`. -/
def saturatingSub (a b : UInt64) : UInt64 := if b ≤ a then a - b else 0

/-- `u64::checked_sub`. -/
def checkedSub (a b : UInt64) : Option UInt64 := if b ≤ a then some (a - b) else none

theorem toNat_saturatingAdd (b : UInt64) :
    (saturatingAdd a b).toNat = min (a.toNat + b.toNat) max.toNat := by
  rw [saturatingAdd, toNat_max]
  split
  · rename_i hlt
    rw [UInt64.toNat_add, Nat.mod_eq_of_lt hlt]
    omega
  · rw [toNat_max]
    omega

theorem toNat_saturatingSub (b : UInt64) :
    (saturatingSub a b).toNat = a.toNat - b.toNat := by
  rw [saturatingSub]
  split
  · rename_i hle
    exact UInt64.toNat_sub_of_le _ _ hle
  · rename_i hlt
    rw [UInt64.le_iff_toNat_le] at hlt
    show 0 = _
    omega

@[simp] theorem saturatingAdd_zero : saturatingAdd a 0 = a := by
  have ha : a.toNat + (0 : UInt64).toNat < 2 ^ 64 := a.toNat_lt
  rw [saturatingAdd, if_pos ha, UInt64.add_zero]

/-- Words added up one by one, saturating. -/
def sum (l : List UInt64) : UInt64 := l.foldl saturatingAdd 0

theorem sum_concat (l : List UInt64) :
    sum (l ++ [a]) = saturatingAdd (sum l) a := by
  rw [sum, List.foldl_append]
  rfl

/-- The sum saturates once: at the end. -/
theorem toNat_sum (l : List UInt64) :
    (sum l).toNat = min (l.map UInt64.toNat).sum max.toNat := by
  induction l using List.reverseRecOn with
  | nil => rfl
  | append_singleton l a ih =>
    rw [sum_concat, toNat_saturatingAdd, ih, List.map_append, List.sum_append]
    simp only [List.map_cons, List.map_nil, List.sum_cons, List.sum_nil]
    omega

theorem toNat_saturatingAdd_one {a : UInt64} (h : a ≠ max) :
    (saturatingAdd a 1).toNat = a.toNat + 1 := by
  have hlt : a.toNat + 1 < 2 ^ 64 := by
    have ha : a.toNat < 2 ^ 64 := a.toNat_lt
    refine Nat.lt_of_le_of_ne ha fun heq => h (UInt64.toNat_inj.mp ?_)
    show a.toNat = 2 ^ 64 - 1
    omega
  rw [saturatingAdd, UInt64.toNat_one, if_pos hlt, UInt64.toNat_add, UInt64.toNat_one]
  exact Nat.mod_eq_of_lt hlt

/-- Below the largest word, the successor is the next word. -/
theorem add_one_le_iff {a n : UInt64} (h : a ≠ max) : a + 1 ≤ n ↔ a < n := by
  have hsucc := toNat_saturatingAdd_one h
  have hlt := (saturatingAdd a 1).toNat_lt
  rw [hsucc] at hlt
  have hadd : (a + 1).toNat = a.toNat + 1 := by
    rw [UInt64.toNat_add, UInt64.toNat_one]
    exact Nat.mod_eq_of_lt hlt
  rw [UInt64.le_iff_toNat_le, UInt64.lt_iff_toNat_lt, hadd]
  omega

/-- Not at or above the successor is at or below, also where the successor wraps. -/
theorem le_of_not_add_one_le {a n : UInt64} (h : ¬a + 1 ≤ n) : n ≤ a := by
  have hadd : (a + 1).toNat ≤ a.toNat + 1 := by
    rw [UInt64.toNat_add, UInt64.toNat_one]
    exact Nat.mod_le _ _
  rw [UInt64.le_iff_toNat_le] at h ⊢
  omega

theorem le_saturatingAdd (a b : UInt64) : a ≤ saturatingAdd a b := by
  have ha := a.toNat_lt
  rw [UInt64.le_iff_toNat_le, toNat_saturatingAdd, toNat_max]
  omega

/-- The numbers from `lo` to `hi`, both included, in ascending order. -/
def range (lo hi : UInt64) : List UInt64 :=
  (List.range' lo.toNat (hi.toNat + 1 - lo.toNat)).map UInt64.ofNat

theorem mem_range {lo hi n : UInt64} : n ∈ range lo hi ↔ lo ≤ n ∧ n ≤ hi := by
  rw [range, List.mem_map]
  constructor
  · rintro ⟨m, hm, rfl⟩
    obtain ⟨hlo, hhi⟩ := List.mem_range'_1.mp hm
    have hlt : m < 2 ^ 64 := by
      have := hi.toNat_lt
      omega
    rw [UInt64.le_iff_toNat_le, UInt64.le_iff_toNat_le, UInt64.toNat_ofNat_of_lt' hlt]
    omega
  · rintro ⟨hlo, hhi⟩
    rw [UInt64.le_iff_toNat_le] at hlo hhi
    exact ⟨n.toNat, List.mem_range'_1.mpr (by omega), UInt64.ofNat_toNat⟩

end U64

/-! ### Wider words -/

namespace Word

/-- Saturating addition of bit vectors. -/
def saturatingAdd {w : Nat} (a b : BitVec w) : BitVec w :=
  if a.toNat + b.toNat < 2 ^ w then a + b else BitVec.allOnes w

/-- The successor of a word that some other word exceeds does not wrap. -/
theorem toNat_add_one_of_lt {w : Nat} {a b : BitVec w} (h : a < b) :
    (a + 1).toNat = a.toNat + 1 := by
  have hlt : a.toNat < b.toNat := BitVec.lt_def.mp h
  have hb : b.toNat < 2 ^ w := b.isLt
  have hone : (1 : BitVec w).toNat = 1 := by
    show 1 % 2 ^ w = 1
    exact Nat.mod_eq_of_lt (by omega)
  rw [BitVec.toNat_add, hone]
  exact Nat.mod_eq_of_lt (by omega)

theorem toNat_saturatingAdd_one {w : Nat} {a : BitVec w} (h : a ≠ BitVec.allOnes w) :
    (saturatingAdd a 1).toNat = a.toNat + 1 := by
  have hlt : a < BitVec.allOnes w := by
    rw [BitVec.lt_def, BitVec.toNat_allOnes]
    have ha := a.isLt
    have hne : a.toNat ≠ 2 ^ w - 1 := fun heq =>
      h (BitVec.eq_of_toNat_eq (heq.trans BitVec.toNat_allOnes.symm))
    omega
  have hsucc := toNat_add_one_of_lt hlt
  have hone : (1 : BitVec w).toNat ≤ 1 := Nat.mod_le 1 _
  have hbound : a.toNat + (1 : BitVec w).toNat < 2 ^ w := by
    have := (a + 1).isLt
    omega
  rw [saturatingAdd, if_pos hbound, hsucc]

theorem le_saturatingAdd_one {w : Nat} (a : BitVec w) : a ≤ saturatingAdd a 1 := by
  by_cases h : a = BitVec.allOnes w
  · subst h
    rw [saturatingAdd]
    split
    · rw [BitVec.le_def, BitVec.toNat_add, Nat.mod_eq_of_lt (by assumption)]
      omega
    · exact BitVec.le_refl _
  · rw [BitVec.le_def, toNat_saturatingAdd_one h]
    omega

/-- `U256::from(u64)`. -/
def ofU64 (w : Nat) (n : UInt64) : BitVec w := BitVec.ofNat w n.toNat

/-- `U256::saturating_to::<u64>()`. -/
def saturatingToU64 {w : Nat} (a : BitVec w) : UInt64 :=
  if a.toNat < 2 ^ 64 then UInt64.ofNat a.toNat else U64.max

theorem toNat_ofU64 (n : UInt64) : (ofU64 256 n).toNat = n.toNat := by
  have hn := n.toNat_lt
  rw [ofU64, BitVec.toNat_ofNat]
  exact Nat.mod_eq_of_lt (by omega)

theorem ofU64_inj {m n : UInt64} : ofU64 256 m = ofU64 256 n ↔ m = n := by
  constructor
  · intro h
    have hnat := congrArg BitVec.toNat h
    rw [toNat_ofU64, toNat_ofU64] at hnat
    exact UInt64.toNat_inj.mp hnat
  · rintro rfl
    rfl

theorem toNat_saturatingToU64 {w : Nat} (a : BitVec w) :
    (saturatingToU64 a).toNat = min a.toNat U64.max.toNat := by
  rw [saturatingToU64, U64.toNat_max]
  split
  · rename_i hlt
    rw [UInt64.toNat_ofNat_of_lt' hlt]
    omega
  · rw [U64.toNat_max]
    omega

@[simp] theorem saturatingToU64_ofU64 (n : UInt64) :
    saturatingToU64 (ofU64 256 n) = n := by
  have hn := n.toNat_lt
  rw [← UInt64.toNat_inj, toNat_saturatingToU64, toNat_ofU64, U64.toNat_max]
  omega

/-- Counting on saturates at the same value before and after the conversion. -/
theorem saturatingToU64_saturatingAdd_one (a : BitVec 256) :
    saturatingToU64 (saturatingAdd a 1) =
      U64.saturatingAdd (saturatingToU64 a) 1 := by
  rw [← UInt64.toNat_inj, U64.toNat_saturatingAdd, toNat_saturatingToU64,
    toNat_saturatingToU64, UInt64.toNat_one]
  by_cases h : a = BitVec.allOnes 256
  · subst h
    decide
  · rw [toNat_saturatingAdd_one h]
    omega

end Word

end BaseAnvil.Lib

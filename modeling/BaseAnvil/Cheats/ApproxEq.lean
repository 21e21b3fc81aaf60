import Mathlib.Data.BitVec

/-!
# BaseAnvil.Cheats.ApproxEq

The checks of `assertApproxEqAbs` and `assertApproxEqRel` (`cheatcodes/src/test/assert.rs`). Those
of `uint256` and of `int256` differ in how a distance and a magnitude are taken. What they compute
with is a number below `2 ^ 256`, and below `2 ^ 512` in the one product.
-/

namespace BaseAnvil.Cheats.ApproxEq

/-- A `U256`, or an `I256` in two's complement. -/
abbrev Word := BitVec 256

structure EqAbsAssertionError where
  left : Word
  right : Word
  maxDelta : Word
  realDelta : Nat

inductive EqRelDelta where
  | defined (delta : Nat)
  | undefined

structure EqRelAssertionFailure where
  left : Word
  right : Word
  maxDelta : Word
  realDelta : EqRelDelta

inductive EqRelAssertionError where
  | failure (e : EqRelAssertionFailure)
  | overflow

/-- `U256::abs_diff`. -/
def absDiff (left right : Nat) : Nat := if left > right then left - right else right - left

/-- The sign of a word is its first bit. -/
def getDeltaInt (left right : Word) : Nat :=
  if left.msb = right.msb then absDiff left.abs.toNat right.abs.toNat
  else (left.abs.toNat + right.abs.toNat) % 2 ^ 256

def calcDeltaFull (absDiff right : Nat) : Except EqRelAssertionError Nat :=
  let delta := absDiff * 10 ^ 18 % 2 ^ 512 / right
  if delta < 2 ^ 256 then .ok delta else .error .overflow

section

variable (getDelta : Word → Word → Nat) (unsignedAbs : Word → Nat) (left right maxDelta : Word)

def assertApproxEqAbs : Except EqAbsAssertionError Unit :=
  let delta := getDelta left right
  if delta ≤ maxDelta.toNat then .ok () else .error ⟨left, right, maxDelta, delta⟩

def assertApproxEqRel : Except EqRelAssertionError Unit :=
  if right = 0 then
    if left = 0 then .ok () else .error (.failure ⟨left, right, maxDelta, .undefined⟩)
  else do
    let delta ← calcDeltaFull (getDelta left right) (unsignedAbs right)
    if delta ≤ maxDelta.toNat then .ok ()
    else .error (.failure ⟨left, right, maxDelta, .defined delta⟩)

end

def uintAssertApproxEqAbs := assertApproxEqAbs fun left right => absDiff left.toNat right.toNat
def intAssertApproxEqAbs := assertApproxEqAbs getDeltaInt
def uintAssertApproxEqRel :=
  assertApproxEqRel (fun left right => absDiff left.toNat right.toNat) BitVec.toNat
def intAssertApproxEqRel := assertApproxEqRel getDeltaInt fun right => right.abs.toNat

theorem absDiff_eq (left right : Nat) : absDiff left right = ((left : ℤ) - right).natAbs := by
  unfold absDiff
  split <;> omega

theorem toNat_abs (x : Word) : x.abs.toNat = x.toInt.natAbs := by
  rw [BitVec.toNat_abs, BitVec.toInt_eq_msb_cond]
  split <;> omega

theorem natAbs_toInt_sub_lt (left right : Word) : (left.toInt - right.toInt).natAbs < 2 ^ 256 := by
  have hleft := BitVec.le_toInt left
  have hleft' := BitVec.toInt_lt (x := left)
  have hright := BitVec.le_toInt right
  have hright' := BitVec.toInt_lt (x := right)
  omega

/-- Two magnitudes of different signs have a sum below `2 ^ 256`, which does not wrap. -/
theorem getDeltaInt_eq (left right : Word) :
    getDeltaInt left right = (left.toInt - right.toInt).natAbs := by
  have hlt := natAbs_toInt_sub_lt left right
  rw [getDeltaInt, absDiff_eq, toNat_abs, toNat_abs, BitVec.msb_eq_toInt, BitVec.msb_eq_toInt]
  simp only [decide_eq_decide]
  split <;> omega

/-- The relative distance, in units of `10 ^ -18`. -/
def relDelta (left right : ℤ) : ℕ := (left - right).natAbs * 10 ^ 18 / right.natAbs

theorem calcDeltaFull_natAbs {left right : ℤ} (hlt : (left - right).natAbs < 2 ^ 256) :
    calcDeltaFull (left - right).natAbs right.natAbs =
      if relDelta left right < 2 ^ 256 then .ok (relDelta left right) else .error .overflow := by
  have hmod : (left - right).natAbs * 10 ^ 18 % 2 ^ 512 = (left - right).natAbs * 10 ^ 18 := by
    rw [Nat.pow_add 2 256 256]
    exact Nat.mod_eq_of_lt (Nat.mul_lt_mul_of_lt_of_le hlt (by decide) (by decide))
  rw [calcDeltaFull, hmod, relDelta]

/-- What the two checks of two numbers have to say. -/
structure Exact (left right : ℤ) (maxDelta : ℕ) (abs : Except EqAbsAssertionError Unit)
    (rel : Except EqRelAssertionError Unit) : Prop where
  abs_ok : abs = .ok () ↔ (left - right).natAbs ≤ maxDelta
  rel_ok : rel = .ok () ↔ left = 0 ∧ right = 0 ∨ right ≠ 0 ∧ relDelta left right ≤ maxDelta
  rel_undefined : right = 0 → left ≠ 0 → ∃ e, rel = .error (.failure e)
  rel_overflow : rel = .error .overflow ↔ right ≠ 0 ∧ 2 ^ 256 ≤ relDelta left right

/-- A bound below the limit is never kept by a quotient that does not fit. -/
theorem bounded_bind {delta limit maxDelta : ℕ} {e : ℕ → EqRelAssertionFailure}
    {checked : Except EqRelAssertionError ℕ} {rel : Except EqRelAssertionError Unit}
    (hchecked : checked = if delta < limit then .ok delta else .error .overflow)
    (hrel : rel = checked >>= fun d => if d ≤ maxDelta then .ok () else .error (.failure (e d)))
    (hmax : maxDelta < limit) :
    (rel = .ok () ↔ delta ≤ maxDelta) ∧ (rel = .error .overflow ↔ limit ≤ delta) := by
  subst hrel hchecked
  rcases Nat.lt_or_ge delta limit with hlt | hle
  · rw [if_pos hlt]
    constructor
    · simp [bind, Except.bind]
    · by_cases h : delta ≤ maxDelta <;> simp [bind, Except.bind, h, hlt]
  · rw [if_neg (Nat.not_lt.mpr hle)]
    exact ⟨iff_of_false (by simp [bind, Except.bind]) (by omega), iff_of_true rfl hle⟩

theorem exact_of_delta {value : Word → ℤ} {getDelta : Word → Word → Nat} {unsignedAbs : Word → Nat}
    (hzero : ∀ x, value x = 0 ↔ x = 0) (habs : ∀ x, unsignedAbs x = (value x).natAbs)
    (hdelta : ∀ left right, getDelta left right = (value left - value right).natAbs)
    (left right maxDelta : Word) (hlt : (value left - value right).natAbs < 2 ^ 256) :
    Exact (value left) (value right) maxDelta.toNat (assertApproxEqAbs getDelta left right maxDelta)
      (assertApproxEqRel getDelta unsignedAbs left right maxDelta) := by
  have hok : assertApproxEqAbs getDelta left right maxDelta = .ok () ↔
      (value left - value right).natAbs ≤ maxDelta.toNat := by
    simp [assertApproxEqAbs, hdelta]
  by_cases hright : right = 0
  · have hrel : assertApproxEqRel getDelta unsignedAbs left right maxDelta =
        if left = 0 then .ok () else .error (.failure ⟨left, right, maxDelta, .undefined⟩) :=
      if_pos hright
    have hvalue := (hzero right).mpr hright
    rw [hrel]
    refine ⟨hok, by simp [hvalue, hzero], fun _ h => ⟨_, if_neg (mt (hzero left).mpr h)⟩,
      iff_of_false ?_ fun h => h.1 hvalue⟩
    split <;> simp
  · have hvalue := mt (hzero right).mp hright
    have hcalc := calcDeltaFull_natAbs hlt
    rw [← hdelta, ← habs] at hcalc
    have hrel : assertApproxEqRel getDelta unsignedAbs left right maxDelta = _ := if_neg hright
    obtain ⟨hiff, hover⟩ := bounded_bind hcalc hrel maxDelta.isLt
    exact ⟨hok, by simp [hiff, hvalue], fun h => absurd h hvalue, by simp [hover, hvalue]⟩

/-- **Approximate equality.** The checks of both types decide the exact inequalities, for every two
values and every bound. -/
theorem approxEq_exact (left right maxDelta : Word) :
    Exact left.toNat right.toNat maxDelta.toNat (uintAssertApproxEqAbs left right maxDelta)
        (uintAssertApproxEqRel left right maxDelta) ∧
      Exact left.toInt right.toInt maxDelta.toNat (intAssertApproxEqAbs left right maxDelta)
        (intAssertApproxEqRel left right maxDelta) := by
  constructor
  · refine exact_of_delta (fun x => Int.natCast_eq_zero.trans (BitVec.toNat_inj (y := 0)))
      (fun x => rfl) (fun left right => absDiff_eq _ _) left right maxDelta ?_
    omega
  · exact exact_of_delta (fun x => BitVec.toInt_inj (y := 0)) toNat_abs getDeltaInt_eq left right
      maxDelta (natAbs_toInt_sub_lt left right)

end BaseAnvil.Cheats.ApproxEq

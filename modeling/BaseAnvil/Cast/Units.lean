import Mathlib.Data.BitVec
import Mathlib.Data.Nat.Digits.Defs

/-!
# BaseAnvil.Cast.Units

Integers as decimal numerals and back (`to_fixed_point`, `format_units`, `from_wei` and their
inverses of `cast/src/lib.rs`, over `NumberWithBase` of `cast/src/base.rs`).

A negative number is carried as its two's complement beside a flag. `to_fixed_point` reads the
flag, and its digits are right for exactly what an `I256` can hold. `format_units` and
`from_wei` do not read it: to them `-1` is `2 ^ 256 - 1`. So they are right for a negative number
only where they refuse the unit.
-/

namespace BaseAnvil.Cast

abbrev U256 := BitVec 256

/-- How a conversion ends without a result. -/
inductive Failure
  | error
  | panic

/-! ### Numbers -/

/-- A text that `parse_int` accepts: its sign, and what `U256::from_str_radix` reads after it. -/
structure IntText where
  negative : Bool
  magnitude : U256

def IntText.value (t : IntText) : Int :=
  if t.negative then -t.magnitude.toNat else t.magnitude.toNat

structure NumberWithBase where
  number : U256
  isNonnegative : Bool

def parseInt (t : IntText) : NumberWithBase :=
  ⟨if t.negative then ~~~t.magnitude + 1 else t.magnitude, !t.negative⟩

/-- Decimal digits, the most significant one first. -/
abbrev Digits := List (Fin 10)

def number (ds : Digits) : Nat := Nat.ofDigits 10 (ds.reverse.map (·.val))

def toDigits (n : Nat) : Digits := ((Nat.digits 10 n).map (Fin.ofNat 10)).reverse

/-- `NumberWithBase::format` for `Base::Decimal`, and the `"0"` that `fmt` has for zero. -/
def NumberWithBase.format (n : NumberWithBase) : Digits :=
  if n.number = 0 then [0]
  else toDigits (if n.isNonnegative then n.number.toNat else n.number.toInt.natAbs)

/-- A decimal numeral. Without a point there is no fraction. -/
structure Numeral where
  negative : Bool
  whole : Digits
  fraction : Option (Digits)

def Numeral.value (n : Numeral) : ℚ :=
  let digits : ℚ := number (n.whole ++ n.fraction.getD [])
  (if n.negative then -digits else digits) / 10 ^ (n.fraction.getD []).length

/-! ### Conversions -/

/-- A numeral with `decimals` digits behind the point. -/
def Numeral.pointed (negative : Bool) (value : Digits) (decimals : Nat) : Numeral :=
  if value.length ≤ decimals then
    ⟨negative, [0], some (List.replicate (decimals - value.length) 0 ++ value)⟩
  else
    ⟨negative, value.take (value.length - decimals), some (value.drop (value.length - decimals))⟩

def toFixedPoint (t : IntText) (decimals : U256) : Except Failure Numeral :=
  let n := parseInt t
  -- `to::<usize>` panics, and so does `format!` for a width that is no `u16`
  if 2 ^ 64 ≤ decimals.toNat ∨ n.format.length ≤ decimals.toNat ∧ 2 ^ 16 ≤ decimals.toNat then
    .error .panic
  else .ok (.pointed (!n.isNonnegative) n.format decimals.toNat)

/-- `ParseUnits` of `alloy` for a `Unit` of up to 77 digits, exact on what a `U256` or an `I256`
can hold. -/
structure ParseUnits where
  formatUnits : U256 → Nat → Numeral
  parseUnits : Numeral → Nat → Option Int
  value_formatUnits : ∀ value unit, unit ≤ 77 →
    (formatUnits value unit).value = value.toNat / 10 ^ unit
  parseUnits_eq : ∀ n unit (v : Int), unit ≤ 77 → n.value = (v / 10 ^ unit : ℚ) →
    -2 ^ 255 ≤ v → v < 2 ^ 256 → parseUnits n unit = some v

variable (P : ParseUnits)

/-- Trims an empty fractional part. -/
def Numeral.trim (n : Numeral) : Numeral :=
  if (n.fraction.getD []).all (· = 0) then { n with fraction := none } else n

def formatUnitAsString (value : U256) (unit : Nat) : Numeral := (P.formatUnits value unit).trim

/-- `Unit::new`, and `Unit::from_str` for the text of a unit. -/
def newUnit (unit : Nat) : Except Failure Nat := if unit ≤ 77 then .ok unit else .error .error

def formatUnits (t : IntText) (unit : Nat) : Except Failure Numeral :=
  (newUnit unit).map (formatUnitAsString P (parseInt t).number)

def fromWei (t : IntText) (unit : Nat) : Except Failure Numeral :=
  (newUnit unit).map (P.formatUnits (parseInt t).number)

/-- `parse_units`, `to_wei` and `from_fixed_point`: they differ in how they are given the unit. -/
def parseUnits (n : Numeral) (unit : Nat) : Except Failure Int := do
  (P.parseUnits n (← newUnit unit)).elim (.error .error) .ok

/-- What a conversion of `v` may end in: an error, or a numeral that denotes `v / 10 ^ d` and is
converted back to `v`. -/
def Exact (v : Int) (d : Nat) : Except Failure Numeral → Prop
  | .error e => e = .error
  | .ok n => n.value = v / 10 ^ d ∧ parseUnits P n d = .ok v

/-! ### Digits -/

@[simp]
theorem number_toDigits (n : Nat) : number (toDigits n) = n := by
  have hdigits : ∀ d ∈ Nat.digits 10 n, ((·.val) ∘ Fin.ofNat 10) d = d := fun d hd =>
    Nat.mod_eq_of_lt (Nat.digits_lt_base (by decide) hd)
  rw [number, toDigits, List.reverse_reverse, List.map_map, List.map_congr_left hdigits,
    List.map_id', Nat.ofDigits_digits]

theorem number_append_zeros (ds : Digits) (k : Nat) :
    number (ds ++ List.replicate k 0) = number ds * 10 ^ k := by
  simp [number, Nat.ofDigits_append, Nat.ofDigits_replicate_zero, Nat.mul_comm]

theorem value_pointed (negative : Bool) (value : Digits) (decimals : Nat) :
    (Numeral.pointed negative value decimals).value =
      (if negative then -(number value : ℚ) else number value) / 10 ^ decimals := by
  unfold Numeral.pointed Numeral.value
  split
  next hle =>
    have hlen : decimals - value.length + value.length = decimals := by omega
    simp [number, Nat.ofDigits_append, Nat.ofDigits_replicate_zero, hlen]
  next hlt =>
    have hlen : value.length - (value.length - decimals) = decimals := by omega
    simp [hlen]

theorem number_format (n : NumberWithBase) :
    number n.format = if n.isNonnegative then n.number.toNat else n.number.toInt.natAbs := by
  unfold NumberWithBase.format
  split
  next hzero => simp [number, hzero]
  next => exact number_toDigits _

/-- The digits are those of the magnitude exactly if an `I256` can hold the number. -/
theorem number_format_parseInt_iff (t : IntText) :
    number (parseInt t).format = t.magnitude.toNat ↔ -2 ^ 255 ≤ t.value := by
  obtain ⟨negative, magnitude⟩ := t
  cases negative with
  | false =>
    have hnonneg : -2 ^ 255 ≤ (magnitude.toNat : Int) := by omega
    exact iff_of_true (number_format _) hnonneg
  | true =>
    have hformat : number (parseInt ⟨true, magnitude⟩).format = (-magnitude).toInt.natAbs := by
      rw [BitVec.neg_eq_not_add]
      exact number_format _
    have hlt := magnitude.isLt
    rw [hformat, BitVec.toInt_eq_toNat_cond, BitVec.toNat_neg]
    simp only [IntText.value, if_true]
    omega

/-- So is the numeral of `to_fixed_point`, whatever the decimals. -/
theorem value_pointed_iff (t : IntText) (d : Nat) :
    (Numeral.pointed (!(parseInt t).isNonnegative) (parseInt t).format d).value =
      t.value / 10 ^ d ↔ -2 ^ 255 ≤ t.value := by
  rw [value_pointed, div_left_inj' (by positivity), ← number_format_parseInt_iff, IntText.value]
  cases hneg : t.negative <;> simp [parseInt, hneg]

theorem value_trim (n : Numeral) : n.trim.value = n.value := by
  unfold Numeral.trim
  split
  next hall =>
    have hzeros := List.eq_replicate_of_mem (a := 0) (l := n.fraction.getD []) (by simpa using hall)
    unfold Numeral.value
    rw [hzeros, number_append_zeros]
    split <;> simp [neg_div]
  next => rfl

/-! ### Exactness -/

theorem exact_ok {n : Numeral} (t : IntText) {d : Nat} (hd : d ≤ 77) (hmin : -2 ^ 255 ≤ t.value)
    (hn : n.value = t.value / 10 ^ d) : Exact P t.value d (.ok n) := by
  have hmax : t.value < 2 ^ 256 := by
    have hlt := t.magnitude.isLt
    unfold IntText.value
    split <;> omega
  refine ⟨hn, ?_⟩
  simp [parseUnits, newUnit, hd, P.parseUnits_eq n d t.value hd hn hmin hmax, bind, Except.bind]

theorem exact_toFixedPoint_iff (t : IntText) (decimals : U256) :
    Exact P t.value decimals.toNat (toFixedPoint t decimals) ↔
      -2 ^ 255 ≤ t.value ∧ decimals.toNat ≤ 77 := by
  by_cases hle : decimals.toNat ≤ 77
  · have hok : toFixedPoint t decimals = .ok _ := if_neg (by omega)
    rw [hok]
    constructor
    · exact fun h => ⟨(value_pointed_iff t _).mp h.1, hle⟩
    · exact fun h => exact_ok P t hle h.1 ((value_pointed_iff t _).mpr h.1)
  · -- the numeral, if there is one, is not converted back
    refine iff_of_false ?_ fun h => hle h.2
    unfold toFixedPoint
    dsimp only
    split
    · nofun
    · rintro ⟨-, hback⟩
      simp [parseUnits, newUnit, hle, bind, Except.bind] at hback

/-- Without its sign a number is printed right exactly if it has none. -/
theorem exact_map_newUnit_iff {t : IntText} {format : Nat → Numeral} (unit : Nat)
    (hformat : ∀ unit ≤ 77, (format unit).value = (parseInt t).number.toNat / 10 ^ unit) :
    Exact P t.value unit ((newUnit unit).map format) ↔ 0 ≤ t.value ∨ 77 < unit := by
  unfold newUnit
  split
  next hle =>
    rw [or_iff_left (by omega)]
    constructor
    · rintro ⟨hvalue, -⟩
      rw [hformat unit hle, div_left_inj' (by positivity)] at hvalue
      have hnonneg : (0 : ℚ) ≤ t.value := hvalue ▸ Nat.cast_nonneg _
      exact_mod_cast hnonneg
    · intro hnonneg
      have hnumber : ((parseInt t).number.toNat : Int) = t.value := by
        unfold IntText.value parseInt at *
        split at hnonneg <;> simp_all
      refine exact_ok P t hle (by omega) ?_
      rw [hformat unit hle, ← hnumber]
      rfl
  next hlt => exact iff_of_true rfl (Or.inr (by omega))

/-- **Exactness of the conversions.** `to_fixed_point` is exact for what an `I256` can hold, with
as many decimals as `from_fixed_point` takes. `format_units` and `from_wei` are for numbers
without a sign; with one, they are right only to refuse the unit. -/
theorem exact_iff_fits (t : IntText) (decimals : U256) (unit : Nat) :
    (Exact P t.value decimals.toNat (toFixedPoint t decimals) ↔
      -2 ^ 255 ≤ t.value ∧ decimals.toNat ≤ 77) ∧
    (Exact P t.value unit (formatUnits P t unit) ↔ 0 ≤ t.value ∨ 77 < unit) ∧
    (Exact P t.value unit (fromWei P t unit) ↔ 0 ≤ t.value ∨ 77 < unit) := by
  refine ⟨exact_toFixedPoint_iff P t decimals, exact_map_newUnit_iff P unit fun unit hle => ?_,
    exact_map_newUnit_iff P unit fun unit hle => P.value_formatUnits _ _ hle⟩
  rw [formatUnitAsString, value_trim, P.value_formatUnits _ _ hle]

/-- By way of the rational number that a numeral denotes. -/
def ParseUnits.rational : ParseUnits where
  formatUnits value unit := .pointed false (toDigits value.toNat) unit
  parseUnits n unit :=
    let q := n.value * 10 ^ unit
    if q.den = 1 then some q.num else none
  value_formatUnits value unit _ := by simp [value_pointed]
  parseUnits_eq n unit v _ hn _ _ := by simp [hn]

/-- `format_units("-1", 0)` is `2 ^ 256 - 1`: the sign is lost. -/
theorem not_exact_formatUnits : ¬Exact .rational (-1) 0 (formatUnits .rational ⟨true, 1⟩ 0) := by
  intro h
  have hvalue := h.1
  have hnumber : (parseInt ⟨true, 1⟩).number.toNat = 2 ^ 256 - 1 := by decide
  rw [formatUnitAsString, value_trim, ParseUnits.value_formatUnits _ _ _ (by decide), hnumber]
    at hvalue
  norm_num at hvalue

end BaseAnvil.Cast

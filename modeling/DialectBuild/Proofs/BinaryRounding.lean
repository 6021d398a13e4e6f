import DialectBuild.Clock
import Mathlib

/-!
# Rounding to Binary Digits

What is lost when a clock computes with its readings. A clock can give numbers with 53 binary
digits, down to a smallest unit, and the difference of two readings or the seconds in a minute are
rounded to such a number.

Rounding gives a number that a clock can give, and leaves such a number as it is. The second fact is
what makes computations exact: if it can be told from the operands that the result has no more
digits than they have, nothing is lost. That holds for the difference of two readings of which the
later one is at most twice the earlier one, and for what remains of a time after the full minutes,
because a minute is fifteen times a power of two.

Numbers of 53 digits include the next power of two, which has one digit more. It is what the largest
of them may be rounded to, and it can be given as well.

## Main definitions

* `Clock.CanGive`: A number that a clock can give.

## Theorems

* `Clock.abs_roundHalfEven_sub_le`, `Clock.even_roundHalfEven`: What the nearest integer is.
* `Clock.le_roundHalfEven_iff`: When it reaches an even number.
* `Clock.exponent_spec`: The powers of two around a number.
* `Clock.canGive_nearest`: Rounding gives a number that a clock can give.
* `Clock.nearest_of_canGive`: Such a number is left as it is.
* `Clock.canGive_sub`: The difference of two readings close to each other.
-/

namespace DialectBuild

namespace Clock

section Integers

variable {r : Rat} {n : Int}

/-- What is rounded down and what is rounded up. -/
theorem roundHalfEven_cases (r : Rat) :
    (roundHalfEven r = r.floor ∧
      (r - r.floor < 1 / 2 ∨ r - r.floor = 1 / 2 ∧ r.floor % 2 = 0)) ∨
    (roundHalfEven r = r.floor + 1 ∧
      (1 / 2 < r - r.floor ∨ r - r.floor = 1 / 2 ∧ r.floor % 2 = 1)) := by
  by_cases hless : r - r.floor < 1 / 2
  · exact Or.inl ⟨by rw [roundHalfEven, if_pos hless], Or.inl hless⟩
  · by_cases hmore : 1 / 2 < r - r.floor
    · exact Or.inr ⟨by rw [roundHalfEven, if_neg hless, if_pos hmore], Or.inl hmore⟩
    · have hhalf : r - r.floor = 1 / 2 := le_antisymm (not_lt.mp hmore) (not_lt.mp hless)
      by_cases heven : r.floor % 2 = 0
      · exact Or.inl ⟨by rw [roundHalfEven, if_neg hless, if_neg hmore, if_pos heven],
          Or.inr ⟨hhalf, heven⟩⟩
      · exact Or.inr ⟨by rw [roundHalfEven, if_neg hless, if_neg hmore, if_neg heven],
          Or.inr ⟨hhalf, by omega⟩⟩

/-- The nearest integer is half a unit away at most. -/
theorem abs_roundHalfEven_sub_le (r : Rat) : |(roundHalfEven r : Rat) - r| ≤ 1 / 2 := by
  have hbelow := Rat.floor_le r
  have habove := Rat.lt_floor_add_one r
  push_cast at habove
  rw [abs_le]
  rcases roundHalfEven_cases r with ⟨hround, hrest | ⟨hrest, _⟩⟩ | ⟨hround, hrest | ⟨hrest, _⟩⟩ <;>
    rw [hround] <;> push_cast <;> constructor <;> linarith

/-- Between two integers that are equally near the even one is taken. -/
theorem even_roundHalfEven (h : |(roundHalfEven r : Rat) - r| = 1 / 2) :
    Even (roundHalfEven r) := by
  have hbelow := Rat.floor_le r
  have habove := Rat.lt_floor_add_one r
  push_cast at habove
  rw [Int.even_iff]
  rcases roundHalfEven_cases r with ⟨hround, hrest | ⟨_, heven⟩⟩ | ⟨hround, hrest | ⟨_, hodd⟩⟩
  · rw [hround, abs_of_nonpos (by linarith)] at h
    linarith
  · rw [hround, heven]
  · rw [hround, abs_of_pos (by push_cast; linarith)] at h
    push_cast at h
    linarith
  · omega

theorem roundHalfEven_le_of_le (h : r ≤ n) : roundHalfEven r ≤ n := by
  have hnear := abs_le.mp (abs_roundHalfEven_sub_le r)
  have hlt : (roundHalfEven r : Rat) < (n + 1 : Int) := by push_cast; linarith
  exact Int.lt_add_one_iff.mp (Int.cast_lt.mp hlt)

theorem le_roundHalfEven_of_le (h : n ≤ r) : n ≤ roundHalfEven r := by
  have hnear := abs_le.mp (abs_roundHalfEven_sub_le r)
  have hlt : (n : Rat) < (roundHalfEven r + 1 : Int) := by push_cast; linarith
  exact Int.lt_add_one_iff.mp (Int.cast_lt.mp hlt)

theorem roundHalfEven_intCast (n : Int) : roundHalfEven n = n :=
  le_antisymm (roundHalfEven_le_of_le le_rfl) (le_roundHalfEven_of_le le_rfl)

/-- An even number is reached half a unit before it. -/
theorem le_roundHalfEven_iff (hn : Even n) : n ≤ roundHalfEven r ↔ n - 1 / 2 ≤ r := by
  have hnear := abs_le.mp (abs_roundHalfEven_sub_le r)
  constructor
  · intro h
    have hle : (n : Rat) ≤ roundHalfEven r := Int.cast_le.mpr h
    linarith
  · intro h
    by_contra hlt
    have hle : (roundHalfEven r : Rat) ≤ (n - 1 : Int) := Int.cast_le.mpr (by omega)
    push_cast at hle
    -- Only the half itself is left, and the odd number below is not taken there.
    have hhalf : (roundHalfEven r : Rat) - r = -(1 / 2) := by linarith
    have heven : Even (roundHalfEven r) :=
      even_roundHalfEven (by rw [hhalf, abs_neg]; exact abs_of_pos (by norm_num))
    have hcast : (roundHalfEven r : Rat) = (n - 1 : Int) := by push_cast; linarith
    have hpred : roundHalfEven r = n - 1 := Int.cast_injective hcast
    rw [hpred, Int.even_iff] at heven
    rw [Int.even_iff] at hn
    omega

end Integers

section Powers

theorem powerOfTwo_eq_zpow (e : Int) : powerOfTwo e = 2 ^ e := by
  cases e with
  | ofNat n =>
      rw [powerOfTwo, Int.ofNat_eq_natCast, zpow_natCast]
      exact Nat.cast_pow 2 n
  | negSucc n =>
      rw [powerOfTwo, zpow_negSucc, one_div]
      exact congrArg (·⁻¹) (Nat.cast_pow 2 (n + 1))

theorem two_zpow_pos (e : Int) : (0 : Rat) < 2 ^ e :=
  zpow_pos (by norm_num) e

theorem two_zpow_add (d e : Int) : (2 : Rat) ^ (d + e) = 2 ^ d * 2 ^ e :=
  zpow_add₀ (by norm_num) d e

theorem two_zpow_sub (d e : Int) : (2 : Rat) ^ (d - e) = 2 ^ d / 2 ^ e :=
  zpow_sub₀ (by norm_num) d e

theorem two_zpow_le_iff {d e : Int} : (2 : Rat) ^ d ≤ 2 ^ e ↔ d ≤ e :=
  zpow_le_zpow_iff_right₀ (by norm_num)

/-- A power of two is a multiple of every smaller one. -/
theorem exists_two_zpow_eq_mul {d e : Int} (h : d ≤ e) : ∃ k : Int, (2 : Rat) ^ e = k * 2 ^ d := by
  rcases Int.eq_ofNat_of_zero_le (sub_nonneg.mpr h) with ⟨n, hn⟩
  refine ⟨2 ^ n, ?_⟩
  rw [← Int.sub_add_cancel e d, two_zpow_add, hn, Int.cast_pow, Int.cast_ofNat]
  rfl

/-- The digits of a number are those between two powers of two. -/
theorem two_zpow_log2 {n : Nat} (hn : n ≠ 0) :
    (2 : Rat) ^ (n.log2 : Int) ≤ n ∧ (n : Rat) < 2 ^ ((n.log2 : Int) + 1) := by
  have hlow : ((2 ^ n.log2 : Nat) : Rat) ≤ n := Nat.cast_le.mpr (Nat.log2_self_le hn)
  have hhigh : (n : Rat) < ((2 ^ (n.log2 + 1) : Nat) : Rat) := Nat.cast_lt.mpr Nat.lt_log2_self
  push_cast at hlow hhigh
  constructor
  · rw [zpow_natCast]
    exact hlow
  · rw [← Nat.cast_succ, zpow_natCast]
    exact hhigh

/-- The exponent of a positive number is that of the largest power of two not above it. -/
theorem exponent_spec {r : Rat} (hr : 0 < r) :
    (2 : Rat) ^ exponent r ≤ r ∧ r < 2 ^ (exponent r + 1) := by
  have hnum : 0 < r.num := Rat.num_pos.mpr hr
  have hden : (0 : Rat) < r.den := Nat.cast_pos.mpr r.den_pos
  have hcast : ((r.num.toNat : Nat) : Rat) = r.num := by
    rw [← Int.cast_natCast, Int.toNat_of_nonneg hnum.le]
  rcases two_zpow_log2 (n := r.num.toNat) (by omega) with ⟨hnumLow, hnumHigh⟩
  rcases two_zpow_log2 r.den_pos.ne' with ⟨hdenLow, hdenHigh⟩
  rw [hcast] at hnumLow hnumHigh
  simp only [exponent, powerOfTwo_eq_zpow]
  generalize (r.num.toNat.log2 : Int) = a at *
  generalize (r.den.log2 : Int) = b at *
  -- The quotient of the two powers is off by one power at most.
  have hlow : (2 : Rat) ^ (a - b - 1) ≤ r :=
    calc (2 : Rat) ^ (a - b - 1)
        = 2 ^ a / 2 ^ (b + 1) := by rw [sub_sub, two_zpow_sub]
      _ ≤ r.num / r.den := div_le_div₀ (Int.cast_nonneg hnum.le) hnumLow hden hdenHigh.le
      _ = r := Rat.num_div_den r
  have hhigh : r < (2 : Rat) ^ (a - b + 1) :=
    calc r = r.num / r.den := (Rat.num_div_den r).symm
      _ < 2 ^ (a + 1) / 2 ^ b :=
          div_lt_div₀ hnumHigh hdenLow (two_zpow_pos _).le (two_zpow_pos _)
      _ = 2 ^ (a - b + 1) := by rw [← two_zpow_sub, sub_add_eq_add_sub]
  split
  next hguess =>
    rw [Int.sub_add_cancel]
    exact ⟨hlow, hguess⟩
  next hguess => exact ⟨not_lt.mp hguess, hhigh⟩

end Powers

/-- The number is one that a clock can give: 53 binary digits at a power of two that is not below
    the smallest unit. -/
def CanGive (r : Rat) : Prop :=
  ∃ n e : Int, -1074 ≤ e ∧ |n| ≤ 2 ^ 53 ∧ r = n * 2 ^ e

section Readings

variable {r : Rat}

/-- A multiple of a unit can be given if there are not too many units in it. -/
theorem canGive_of_abs_le {n e : Int} (he : -1074 ≤ e) (hr : r = n * 2 ^ e)
    (h : |r| ≤ 2 ^ 53 * 2 ^ e) : CanGive r := by
  refine ⟨n, e, he, ?_, hr⟩
  rw [hr, abs_mul, abs_of_pos (two_zpow_pos e)] at h
  have hn : |(n : Rat)| ≤ 2 ^ 53 := le_of_mul_le_mul_right h (two_zpow_pos e)
  rw [← Int.cast_abs] at hn
  exact_mod_cast hn

/-- A number that can be given is a number of units, and not of too many. -/
theorem abs_units_le {n e : Int} (hn : |n| ≤ 2 ^ 53) : |(n * 2 ^ e : Rat)| ≤ 2 ^ 53 * 2 ^ e := by
  have hcast : |(n : Rat)| ≤ 2 ^ 53 := by
    rw [← Int.cast_abs]
    exact_mod_cast hn
  rw [abs_mul, abs_of_pos (two_zpow_pos e)]
  exact mul_le_mul_of_nonneg_right hcast (two_zpow_pos e).le

theorem lastUnit_eq_zpow (r : Rat) : lastUnit r = 2 ^ max (exponent r - 52) (-1074) :=
  powerOfTwo_eq_zpow _

theorem lastUnit_pos (r : Rat) : 0 < lastUnit r := by
  rw [lastUnit_eq_zpow]
  exact two_zpow_pos _

theorem nearest_of_ne_zero (h : r ≠ 0) :
    nearest r = roundHalfEven (r / lastUnit |r|) * lastUnit |r| := by
  have habs : (if r < 0 then -r else r) = |r| := by
    split
    next hneg => exact (abs_of_neg hneg).symm
    next hpos => exact (abs_of_nonneg (not_lt.mp hpos)).symm
  rw [nearest, if_neg h, habs]

/-- A number has at most 53 binary digits in front of its last unit. -/
theorem abs_le_lastUnit (h : r ≠ 0) : |r| ≤ 2 ^ 53 * lastUnit |r| := by
  have hhigh := (exponent_spec (abs_pos.mpr h)).2
  have hpower : (2 : Rat) ^ (exponent |r| + 1) ≤ 2 ^ (53 + max (exponent |r| - 52) (-1074)) := by
    rw [two_zpow_le_iff]
    omega
  rw [two_zpow_add 53] at hpower
  rw [lastUnit_eq_zpow]
  exact hhigh.le.trans hpower

/-- Rounding gives a number that a clock can give. -/
theorem canGive_nearest (r : Rat) : CanGive (nearest r) := by
  by_cases hr : r = 0
  · rw [nearest, if_pos hr]
    exact ⟨0, 0, by norm_num, by norm_num, by norm_num⟩
  · have hunit := lastUnit_pos |r|
    -- In units of the last digit the value is at most `2 ^ 53`, and rounding to a whole number of
    -- units does not go past that.
    have hbound : |r / lastUnit (|r|)| ≤ 2 ^ 53 := by
      rw [abs_div, abs_of_pos hunit, div_le_iff₀ hunit]
      exact abs_le_lastUnit hr
    rcases abs_le.mp hbound with ⟨hlow, hhigh⟩
    refine ⟨roundHalfEven (r / lastUnit |r|), max (exponent |r| - 52) (-1074), le_max_right _ _,
      ?_, ?_⟩
    · rw [abs_le]
      constructor
      · exact le_roundHalfEven_of_le (by push_cast; exact hlow)
      · exact roundHalfEven_le_of_le (by push_cast; exact hhigh)
    · rw [← lastUnit_eq_zpow]
      exact nearest_of_ne_zero hr

/-- A number that a clock can give is a multiple of its own last unit. -/
theorem CanGive.exists_lastUnit (h : CanGive r) (hr : r ≠ 0) : ∃ k : Int, r = k * lastUnit |r| := by
  rcases h with ⟨n, e, he, hn, rfl⟩
  have hlow := (exponent_spec (abs_pos.mpr hr)).1
  rw [lastUnit_eq_zpow]
  generalize hu : max (exponent |(n * 2 ^ e : Rat)| - 52) (-1074) = u
  by_cases hle : u ≤ e
  · rcases exists_two_zpow_eq_mul hle with ⟨k, hk⟩
    refine ⟨n * k, ?_⟩
    rw [hk, Int.cast_mul, mul_assoc]
  · -- The number is as large as it can be, a power of two, and its unit is twice the given one.
    have hexponent : exponent |(n * 2 ^ e : Rat)| = u + 52 := by omega
    rw [hexponent] at hlow
    have hpower : (2 : Rat) ^ (u + 52) ≤ 2 ^ (53 + e) := by
      rw [two_zpow_add 53]
      exact hlow.trans (abs_units_le hn)
    have hnext : u = e + 1 := by
      rw [two_zpow_le_iff] at hpower
      omega
    have hmany : 2 ^ 53 ≤ |n| := by
      rw [abs_mul, abs_of_pos (two_zpow_pos e), show u + 52 = 53 + e by omega,
        two_zpow_add] at hlow
      have hn' := le_of_mul_le_mul_right hlow (two_zpow_pos e)
      rw [← Int.cast_abs] at hn'
      exact_mod_cast hn'
    have heven : n = 2 * (n / 2) := by
      rcases abs_cases n with ⟨habs, _⟩ | ⟨habs, _⟩ <;> omega
    refine ⟨n / 2, ?_⟩
    rw [hnext, two_zpow_add, zpow_one]
    have hcast : (n : Rat) = 2 * (n / 2 : Int) := by exact_mod_cast heven
    rw [hcast]
    ring

/-- A number that a clock can give is left as it is. -/
theorem nearest_of_canGive (h : CanGive r) : nearest r = r := by
  by_cases hr : r = 0
  · rw [nearest, if_pos hr, hr]
  · rcases h.exists_lastUnit hr with ⟨k, hk⟩
    have hquotient : r / lastUnit |r| = k := (div_eq_iff (lastUnit_pos _).ne').mpr hk
    rw [nearest_of_ne_zero hr, hquotient, roundHalfEven_intCast]
    exact hk.symm

theorem nearest_nonneg (h : 0 ≤ r) : 0 ≤ nearest r := by
  by_cases hr : r = 0
  · rw [nearest, if_pos hr]
  · have hround : 0 ≤ roundHalfEven (r / lastUnit |r|) :=
      le_roundHalfEven_of_le (by push_cast; exact div_nonneg h (lastUnit_pos _).le)
    rw [nearest_of_ne_zero hr]
    exact mul_nonneg (Int.cast_nonneg hround) (lastUnit_pos _).le

/-- The difference of two readings of which the later one is at most twice the earlier one can be
    given: it is a multiple of the smaller of their units, and not larger than that reading. -/
theorem canGive_sub {a b : Rat} (ha : CanGive a) (hb : CanGive b) (hle : a ≤ b)
    (htwice : b ≤ 2 * a) : CanGive (b - a) := by
  rcases ha with ⟨m, d, hd, hm, rfl⟩
  rcases hb with ⟨n, e, he, hn, rfl⟩
  have hma := (abs_le.mp (abs_units_le (e := d) hm)).2
  have hnb := (abs_le.mp (abs_units_le (e := e) hn)).2
  have hnonneg : 0 ≤ (n * 2 ^ e - m * 2 ^ d : Rat) := sub_nonneg.mpr hle
  -- The difference is a whole number of the smaller of the two units, and not larger than the
  -- number that has this unit.
  rcases le_total d e with hde | hed
  · rcases exists_two_zpow_eq_mul hde with ⟨k, hk⟩
    refine canGive_of_abs_le (n := n * k - m) hd ?_ ?_
    · rw [hk]
      push_cast
      ring
    · rw [abs_of_nonneg hnonneg]
      linarith
  · rcases exists_two_zpow_eq_mul hed with ⟨k, hk⟩
    refine canGive_of_abs_le (n := n - m * k) he ?_ ?_
    · rw [hk]
      push_cast
      ring
    · rw [abs_of_nonneg hnonneg]
      linarith

end Readings

end Clock

end DialectBuild

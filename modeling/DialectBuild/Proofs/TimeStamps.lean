import DialectBuild.Console
import DialectBuild.Proofs.BinaryRounding

/-!
# Time Stamps

What the stamp in front of a line of the log says about the time since the log was started. The
stamp has minutes and the seconds past the full minutes, and the two are found in different ways:
the minutes by a division, and the seconds as what remains of it, rounded to two places.

Computing the seconds loses nothing, and for a billion years the division loses nothing either. So
the only rounding is that of the last place, and minutes and seconds together are never more than
half a hundredth of a second away from the time. But there is no way for this rounding to carry over
to the minutes. Within the last half hundredth of a minute the seconds are shown as sixty.

## Main definitions

* `Clock.hundredths`: The hundredths of a second that are shown.
* `Clock.Shows`: A text with given minutes and hundredths of a second.

## Theorems

* `Clock.canGive_past_minutes`: What remains of a time after the full minutes can be given.
* `Clock.seconds_eq`: Computing the seconds loses nothing.
* `Clock.minutes_eq_fullMinutes`: How long computing the minutes loses nothing.
* `Clock.hundredths_spec`: What is shown of the seconds.
* `Clock.exists_shows_stamp`: What the stamp of a time says about it.
* `Console.stamp_reading`: What a stamp says about the time since the start.
* `Console.stamp_misreading`: Stamps that are no readings of a clock.
-/

namespace DialectBuild

namespace Clock

section Minutes

variable {t : Rat}

theorem fullMinutes_le (t : Rat) : 60 * (fullMinutes t : Rat) ≤ t := by
  have hfloor := Rat.floor_le (t / 60)
  rw [fullMinutes]
  linarith

theorem lt_fullMinutes_add (t : Rat) : t < 60 * (fullMinutes t : Rat) + 60 := by
  have hfloor := Rat.lt_floor_add_one (t / 60)
  rw [fullMinutes]
  push_cast at hfloor
  linarith

theorem fullMinutes_nonneg (ht : 0 ≤ t) : 0 ≤ fullMinutes t := by
  rw [fullMinutes, Rat.le_floor_iff]
  exact div_nonneg ht (by norm_num)

/-- What remains of a time after the full minutes can be given. A minute is fifteen times the
    second power of two, so the remainder is a multiple of the unit of the time or of that power,
    whichever is smaller. -/
theorem canGive_past_minutes (ht : CanGive t) (hnonneg : 0 ≤ t) :
    CanGive (t - 60 * fullMinutes t) := by
  have hpos : 0 ≤ t - 60 * (fullMinutes t : Rat) := sub_nonneg.mpr (fullMinutes_le t)
  have hless := lt_fullMinutes_add t
  have hminutes : (0 : Rat) ≤ fullMinutes t := Int.cast_nonneg (fullMinutes_nonneg hnonneg)
  rcases ht with ⟨n, e, he, hn, ht⟩
  rcases le_total e 2 with hle | hge
  · -- The unit of the time goes into a minute, and the remainder is not above the time.
    rcases exists_two_zpow_eq_mul hle with ⟨k, hk⟩
    have hminute : (60 : Rat) = 15 * k * 2 ^ e := by
      rw [mul_assoc, ← hk]
      norm_num
    refine canGive_of_abs_le (n := n - 15 * k * fullMinutes t) he ?_ ?_
    · rw [hminute]
      nth_rewrite 1 [ht]
      push_cast
      ring
    · have hbound := (abs_le.mp (abs_units_le (e := e) hn)).2
      rw [abs_of_nonneg hpos]
      linarith
  · -- Both are multiples of four seconds, and less than a minute remains.
    rcases exists_two_zpow_eq_mul hge with ⟨k, hk⟩
    have htime : t = n * k * 2 ^ (2 : Int) := by rw [ht, hk, mul_assoc]
    refine canGive_of_abs_le (n := n * k - 15 * fullMinutes t) (e := 2) (by norm_num) ?_ ?_
    · nth_rewrite 1 [htime]
      push_cast
      ring
    · rw [abs_of_nonneg hpos]
      norm_num
      linarith

/-- Computing the seconds of a time that was measured loses nothing. -/
theorem seconds_eq (ht : CanGive t) (hnonneg : 0 ≤ t) : seconds t = t - 60 * fullMinutes t :=
  nearest_of_canGive (canGive_past_minutes ht hnonneg)

theorem snapped_intCast (n : Int) : snapped n = n := by
  simp [snapped]

/-- From the start on, nothing is taken off the quotient. -/
theorem minutes_of_nonneg (ht : 0 ≤ t) :
    minutes t = snapped (nearest (nearest (60 * fullMinutes t) / 60)) := by
  have hback : ¬(t < 0 ∧ t ≠ 60 * fullMinutes t) := fun h => not_lt.mpr ht h.1
  simp only [minutes, if_neg hback, Int.cast_zero, add_zero, sub_zero]
  rw [nearest_of_canGive (canGive_nearest _)]

theorem minutes_nonneg (ht : 0 ≤ t) : 0 ≤ minutes t := by
  have hfull : (0 : Rat) ≤ 60 * fullMinutes t :=
    mul_nonneg (by norm_num) (Int.cast_nonneg (fullMinutes_nonneg ht))
  have hquotient : 0 ≤ nearest (nearest (60 * fullMinutes t) / 60) :=
    nearest_nonneg (div_nonneg (nearest_nonneg hfull) (by norm_num))
  have hfloor : 0 ≤ (nearest (nearest (60 * fullMinutes t) / 60)).floor :=
    Rat.le_floor_iff.mpr (by push_cast; exact hquotient)
  rw [minutes_of_nonneg ht, snapped]
  split <;> omega

/-- For a billion years the minutes that are computed are the full minutes. A multiple of a minute
    is fifteen times a multiple of four seconds, and so few of these can be given. -/
theorem minutes_eq_fullMinutes (ht : 0 ≤ t) (hless : t < 2 ^ 55) : minutes t = fullMinutes t := by
  have hfull : (0 : Rat) ≤ fullMinutes t := Int.cast_nonneg (fullMinutes_nonneg ht)
  have hle := fullMinutes_le t
  -- Both steps of the division are exact: the multiple of 60 and the quotient are short enough to
  -- be given as they are.
  have hmultiple : CanGive (60 * fullMinutes t) := by
    refine canGive_of_abs_le (n := 15 * fullMinutes t) (e := 2) (by norm_num) ?_ ?_
    · push_cast
      ring
    · rw [abs_of_nonneg (mul_nonneg (by norm_num) hfull)]
      norm_num at hless ⊢
      linarith
  have hquotient : CanGive (fullMinutes t) := by
    refine canGive_of_abs_le (n := fullMinutes t) (e := 0) (by norm_num) (by norm_num) ?_
    rw [abs_of_nonneg hfull]
    norm_num at hless ⊢
    linarith
  rw [minutes_of_nonneg ht, nearest_of_canGive hmultiple, mul_div_cancel_left₀ _ (by norm_num),
    nearest_of_canGive hquotient, snapped_intCast]

end Minutes

section Digits

/-- A number below one hundred has at most two digits. -/
theorem length_ofNat_le {n : Nat} (hn : n < 100) : (Text.ofNat n).length ≤ 2 := by
  revert n
  decide

theorem length_padded {width : Nat} {t : Text} (ht : t.length ≤ width) :
    (padded width t).length = width := by
  rw [padded, List.length_append, List.length_replicate]
  omega

/-- Zeros are added before a text whatever it ends with. -/
theorem padded_append (width : Nat) (a b : Text) :
    padded (width + b.length) (a ++ b) = padded width a ++ b := by
  rw [padded, padded, List.length_append, Nat.add_sub_add_right, List.append_assoc]

/-- The hundredths of a second that are shown of a number of seconds. -/
def hundredths (r : Rat) : Nat :=
  (roundHalfEven (r * 100)).toNat

/-- The text has minutes and, of the seconds, two digits on either side of the point. -/
def Shows (text : Text) (minutes hundredths : Nat) : Prop :=
  text = padded 2 (Text.ofNat minutes) ++ ":" ++ padded 2 (Text.ofNat (hundredths / 100)) ++ "." ++
    padded 2 (Text.ofNat (hundredths % 100))

theorem twoDigits_of_nonneg {n : Int} (hn : 0 ≤ n) :
    twoDigits n = padded 2 (Text.ofNat n.toNat) := by
  rcases Int.eq_ofNat_of_zero_le hn with ⟨m, rfl⟩
  rw [twoDigits, if_neg (not_lt.mpr hn)]
  rfl

/-- Seconds are shown with two digits before the point and two behind it. -/
theorem padded_fixed {r : Rat} (hr : 0 ≤ r) :
    padded 5 (fixed r) = padded 2 (Text.ofNat (hundredths r / 100)) ++
      ("." ++ padded 2 (Text.ofNat (hundredths r % 100))) := by
  have hfixed : fixed r = Text.ofNat (hundredths r / 100) ++
      ("." ++ padded 2 (Text.ofNat (hundredths r % 100))) := by
    simp only [fixed, if_neg (not_lt.mpr hr), List.nil_append, List.append_assoc, hundredths]
  have hlength : (("." : Text) ++ padded 2 (Text.ofNat (hundredths r % 100))).length = 3 := by
    rw [List.length_append, length_padded (length_ofNat_le (Nat.mod_lt _ (by norm_num)))]
    rfl
  rw [hfixed, ← padded_append, hlength]

theorem shows_stamp {t : Rat} (ht : 0 ≤ t) (hseconds : 0 ≤ seconds t) :
    Shows (stamp t) (minutes t).toNat (hundredths (seconds t)) := by
  rw [Shows, stamp, twoDigits_of_nonneg (minutes_nonneg ht), padded_fixed hseconds]
  simp only [List.append_assoc]

/-- What is shown of less than a minute. Sixty seconds are shown from half a hundredth before the
    full minute on. -/
theorem hundredths_spec {r : Rat} (hr : 0 ≤ r) (hless : r < 60) :
    |(hundredths r : Rat) / 100 - r| ≤ 1 / 200 ∧ hundredths r ≤ 6000 ∧
      (hundredths r < 6000 ↔ r < 59995 / 1000) := by
  have hpos : 0 ≤ roundHalfEven (r * 100) :=
    le_roundHalfEven_of_le (by push_cast; linarith)
  have hmost : roundHalfEven (r * 100) ≤ 6000 :=
    roundHalfEven_le_of_le (by push_cast; linarith)
  have hcast : (hundredths r : Rat) = roundHalfEven (r * 100) := by
    rw [hundredths, ← Int.cast_natCast, Int.toNat_of_nonneg hpos]
  -- 6000 is even, so a tie below it rounds up to it.
  have hfull := le_roundHalfEven_iff (r := r * 100) (n := 6000) (by decide)
  push_cast at hfull
  refine ⟨?_, by rw [hundredths]; omega, ?_⟩
  · have hnear := abs_le.mp (abs_roundHalfEven_sub_le (r * 100))
    rw [hcast, abs_le]
    constructor <;> linarith
  · rw [hundredths, Int.toNat_lt' (by norm_num), ← not_le, Nat.cast_ofNat, hfull, not_le]
    constructor <;> intro h <;> linarith

end Digits

/-- What the stamp of a time that was measured says about it. -/
theorem exists_shows_stamp {t : Rat} (ht : CanGive t) (hnonneg : 0 ≤ t) :
    ∃ minutes hundredths : Nat, Shows (stamp t) minutes hundredths ∧ hundredths ≤ 6000 ∧
      (hundredths < 6000 ↔ t - 60 * fullMinutes t < 59995 / 1000) ∧
      (t < 2 ^ 55 → |60 * minutes + (hundredths : Rat) / 100 - t| ≤ 1 / 200) := by
  have hseconds := seconds_eq ht hnonneg
  have hpos : 0 ≤ seconds t := by
    rw [hseconds]
    exact sub_nonneg.mpr (fullMinutes_le t)
  have hless : seconds t < 60 := by
    rw [hseconds]
    linarith [lt_fullMinutes_add t]
  rcases hundredths_spec hpos hless with ⟨hnear, hmost, hfull⟩
  refine ⟨(minutes t).toNat, hundredths (seconds t), shows_stamp hnonneg hpos, hmost, ?_, ?_⟩
  · rw [hfull, hseconds]
  · intro hshort
    have hminutes : ((minutes t).toNat : Rat) = fullMinutes t := by
      rw [minutes_eq_fullMinutes hnonneg hshort, ← Int.cast_natCast,
        Int.toNat_of_nonneg (fullMinutes_nonneg hnonneg)]
    -- What is lost is only what the seconds lose to hundredths.
    have hsplit : 60 * (fullMinutes t : Rat) + (hundredths (seconds t) : Rat) / 100 - t =
        (hundredths (seconds t) : Rat) / 100 - seconds t := by
      rw [hseconds]
      ring
    rw [hminutes, hsplit]
    exact hnear

end Clock

namespace Console

open Clock

/-- What a stamp says about the time since the start. The seconds are not below zero, and they are
    below sixty unless the time is within half a hundredth of a second of the next full minute,
    where they are shown as sixty. For a billion years, minutes and seconds together are at most
    half a hundredth of a second away from the time. The time itself is the exact difference of
    the two readings if a clock can give that, as it can if the later reading is at most twice the
    earlier one. -/
theorem stamp_reading {c : Console} {start : Rat} (hstarted : c.started = some start)
    (hlater : start ≤ c.now) :
    ∃ minutes hundredths : Nat, Shows c.stamp minutes hundredths ∧ hundredths ≤ 6000 ∧
      (hundredths < 6000 ↔
        elapsed start c.now - 60 * fullMinutes (elapsed start c.now) < 59995 / 1000) ∧
      (elapsed start c.now < 2 ^ 55 →
        |60 * minutes + (hundredths : Rat) / 100 - elapsed start c.now| ≤ 1 / 200) ∧
      (CanGive (c.now - start) → elapsed start c.now = c.now - start) ∧
      (CanGive start → CanGive c.now → c.now ≤ 2 * start → CanGive (c.now - start)) := by
  have hgiven : CanGive (elapsed start c.now) := canGive_nearest _
  have hnonneg : 0 ≤ elapsed start c.now := nearest_nonneg (sub_nonneg.mpr hlater)
  have hstamp : c.stamp = Clock.stamp (elapsed start c.now) := by
    rw [Console.stamp, hstarted, Option.getD_some]
  rcases exists_shows_stamp hgiven hnonneg with ⟨minutes, hundredths, hshows, hmost, hfull, hnear⟩
  refine ⟨minutes, hundredths, hstamp ▸ hshows, hmost, hfull, hnear, nearest_of_canGive, ?_⟩
  intro hstart hnow htwice
  exact canGive_sub hstart hnow hlater htwice

/-- A log by a clock that counts from long ago, a minute and a half after it was started. -/
def longRunning : Console :=
  { started := some 1794700800, now := 1794700890 + 1 / 8 }

theorem stamp_reading_longRunning : longRunning.started = some 1794700800 ∧
    (1794700800 : Rat) ≤ longRunning.now ∧ longRunning.stamp = "01:30.12" ∧
    ∃ minutes hundredths : Nat, Shows longRunning.stamp minutes hundredths ∧ hundredths ≤ 6000 ∧
      (hundredths < 6000 ↔
        elapsed 1794700800 longRunning.now -
          60 * fullMinutes (elapsed 1794700800 longRunning.now) < 59995 / 1000) ∧
      (elapsed 1794700800 longRunning.now < 2 ^ 55 →
        |60 * minutes + (hundredths : Rat) / 100 - elapsed 1794700800 longRunning.now| ≤ 1 / 200) ∧
      (CanGive (longRunning.now - 1794700800) →
        elapsed 1794700800 longRunning.now = longRunning.now - 1794700800) ∧
      (CanGive 1794700800 → CanGive longRunning.now → longRunning.now ≤ 2 * 1794700800 →
        CanGive (longRunning.now - 1794700800)) := by
  have hlater : (1794700800 : Rat) ≤ longRunning.now := by
    rw [longRunning]
    norm_num
  have hstamp : longRunning.stamp = "01:30.12" := by decide +kernel
  exact ⟨rfl, hlater, hstamp, stamp_reading rfl hlater⟩

/-- A millisecond before the first full minute the seconds are shown as sixty, and the minute is
    not counted yet. After a time that no log will see, there is a minute too many. -/
theorem stamp_misreading :
    ({ started := some 0, now := 59999 / 1000 } : Console).stamp = "00:60.00" ∧
    ({ started := some 0, now := 800000000000000000 } : Console).stamp =
      "13333333333333334:20.00" ∧
    60 * 13333333333333333 + 20 = 800000000000000000 := by
  decide +kernel

end Console

end DialectBuild

import DialectBuild.Text.Basic

/-!
# Clock Readings

Times in seconds and how the console shows them. Times are exact: a reading is a rational
number, and what a computation on readings loses is said by `nearest`, which rounds to the
numbers of 53 binary digits that a clock can give.

A stamp shows minutes and seconds, the seconds with two places after the point. The last
place is rounded to the nearest, a half to the even one, so that seconds just below a full
minute may show as sixty. The minutes come out of a division of rounded numbers, which gives the
full minutes unless there are more of them than a clock can count.

## Main definitions

* `Clock.roundHalfEven`: The nearest integer.
* `Clock.nearest`: The nearest number that a clock can give.
* `Clock.elapsed`: The time between two readings.
* `Clock.fixed`: A number with two places after the point.
* `Clock.fullMinutes`, `Clock.minutes`: The minutes of a time, and what is shown of them.
* `Clock.stamp`: Minutes and seconds.
-/

namespace DialectBuild

namespace Clock

/-- The nearest integer to a quotient, the even one of two that are equally near. -/
def roundHalfEven (r : Rat) : Int :=
  let below := r.floor
  let rest := r - below
  if rest < 1 / 2 then below
  else if 1 / 2 < rest then below + 1
  else if below % 2 = 0 then below
  else below + 1

/-- A power of two with any exponent. -/
def powerOfTwo : Int → Rat
  | .ofNat n => (Nat.pow 2 n : Nat)
  | .negSucc n => 1 / (Nat.pow 2 (n + 1) : Nat)

/-- The exponent of the largest power of two that is not above a positive number. -/
def exponent (r : Rat) : Int :=
  let guess : Int := (r.num.toNat.log2 : Int) - r.den.log2
  if r < powerOfTwo guess then guess - 1 else guess

/-- The unit of the last of 53 binary digits of a positive number. -/
def lastUnit (r : Rat) : Rat :=
  powerOfTwo (max (exponent r - 52) (-1074))

/-- The nearest number of 53 binary digits. -/
def nearest (r : Rat) : Rat :=
  if r = 0 then 0
  else
    let unit := lastUnit (if r < 0 then -r else r)
    roundHalfEven (r / unit) * unit

/-- The time from one reading to another. -/
def elapsed (start now : Rat) : Rat :=
  nearest (now - start)

/-- A text of digits with zeros before it, up to a width. -/
def padded (width : Nat) (t : Text) : Text :=
  List.replicate (width - t.length) (.char '0') ++ t

/-- A number with two places after the point. A number below zero keeps its sign, even if all
    places that are shown are zero. -/
def fixed (r : Rat) : Text :=
  let sign : Text := if r < 0 then "-" else []
  let hundredths := (roundHalfEven ((if r < 0 then -r else r) * 100)).toNat
  sign ++ Text.ofNat (hundredths / 100) ++ "." ++ padded 2 (Text.ofNat (hundredths % 100))

/-- The full minutes of a time. -/
def fullMinutes (t : Rat) : Int :=
  (t / 60).floor

/-- The seconds of a time past its full minutes. -/
def seconds (t : Rat) : Rat :=
  nearest (t - 60 * fullMinutes t)

/-- The integer next to a number, the lower one of two that are equally near. -/
def snapped (r : Rat) : Int :=
  let below := r.floor
  if 1 / 2 < r - below then below + 1 else below

/-- The minutes of a time as they are computed. The last multiple of a minute on the way from zero
    to the time is divided by sixty, and for a time below zero one minute is taken off. Each
    result is rounded, and in the end the integer next to it is taken. -/
def minutes (t : Rat) : Int :=
  let back : Int := if t < 0 ∧ t ≠ 60 * fullMinutes t then 1 else 0
  let quotient := nearest (nearest (60 * (fullMinutes t + back)) / 60)
  snapped (nearest (quotient - back))

/-- A number of at least two digits. -/
def twoDigits (n : Int) : Text :=
  if n < 0 then Text.ofInt n else padded 2 (Text.ofInt n)

/-- Minutes and seconds of a time. -/
def stamp (t : Rat) : Text :=
  twoDigits (minutes t) ++ ":" ++ padded 5 (fixed (seconds t))

end Clock

end DialectBuild

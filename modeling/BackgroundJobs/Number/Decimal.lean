/-!
# Number — decimal digits

Reading runs of decimal digits, and the binary fraction nearest to a decimal
number.
-/

namespace BackgroundJobs.Number

/-- Is the character one of `0` to `9`? -/
def isDigit (c : Char) : Bool :=
  '0' ≤ c && c ≤ '9'

/-- The number that a run of decimal digits denotes, leading zeros or not. -/
def ofDigits (digits : List Char) : Nat :=
  Nat.ofDigitChars 10 digits 0

/-- The number that a non-empty run of decimal digits denotes. -/
def read? (digits : List Char) : Option Nat :=
  if digits.isEmpty || !digits.all isDigit then none else some (ofDigits digits)

/-- The decimal digits of a number, without leading zeros. -/
def digits (n : Nat) : List Char :=
  Nat.toDigits 10 n

/-- The decimal digits of a number, with leading zeros up to the given width. -/
def padded (width n : Nat) : List Char :=
  List.replicate (width - (digits n).length) '0' ++ digits n

/-- The binary fraction nearest to `mantissa * 10 ^ exponent`. Exponents so far out that the
answer is zero or infinite whatever the other digits are cut short. -/
def nearest (mantissa : Nat) (exponent : Int) : Float :=
  if mantissa = 0 then 0.0
  else
    let magnitude : Int := (digits mantissa).length + exponent
    if magnitude < -400 then 0.0
    else if magnitude > 400 then Float.ofScientific 1 false 400
    else Float.ofScientific mantissa (exponent < 0) exponent.natAbs

/-- The digits of a number stand for it. -/
theorem ofDigits_digits (n : Nat) : ofDigits (digits n) = n :=
  Nat.ofDigitChars_toDigits (by decide) (by decide)

end BackgroundJobs.Number

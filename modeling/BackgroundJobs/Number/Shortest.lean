import BackgroundJobs.Number.Decimal

/-!
# Number — the shortest decimal that reads back

A finite binary fraction is written with the fewest decimal digits from which
it can be read back, the nearest such decimal if there are several. Numbers
from `1e-5` up to `1e16` are written positionally, others with an exponent.
-/

namespace BackgroundJobs.Number

/-- A decimal number: `digits * 10 ^ exponent`. -/
structure Scientific where
  digits : Nat
  exponent : Int
  deriving DecidableEq, Repr

/-- A positive binary fraction with the bounds of what rounds to it, all in quarters of
`2 ^ exponent`: the number is `centre`, and `closed` says whether the bounds round to it too. -/
structure Interval where
  low : Nat
  centre : Nat
  high : Nat
  exponent : Int
  closed : Bool

/-- The interval of the binary fraction whose bits, without the sign, are given. -/
def Interval.ofBits (bits : Nat) : Interval :=
  let fraction := bits % 0x10000000000000
  let biased := bits / 0x10000000000000 % 0x800
  let m := if biased = 0 then fraction else 0x10000000000000 + fraction
  let q : Int := (if biased = 0 then 1 else biased : Nat) - 1075
  let low := if fraction = 0 ∧ biased > 1 then 4 * m - 1 else 4 * m - 2
  ⟨low, 4 * m, 4 * m + 2, q - 2, m % 2 = 0⟩

/-- `n * 2 ^ exponent` measured in `10 ^ power`, as numerator and denominator. -/
def onGrid (n : Nat) (exponent power : Int) : Nat × Nat :=
  (n * Nat.pow 2 exponent.toNat * Nat.pow 10 (-power).toNat,
    Nat.pow 2 (-exponent).toNat * Nat.pow 10 power.toNat)

/-- The point of the grid of spacing `10 ^ power` that is nearest to the number, if one of its
two neighbours there reads back as it. -/
def Interval.hit? (v : Interval) (power : Int) : Option Nat :=
  let (low, den) := onGrid v.low v.exponent power
  let (centre, _) := onGrid v.centre v.exponent power
  let (high, _) := onGrid v.high v.exponent power
  let inside (c : Nat) : Bool :=
    if v.closed then low ≤ c * den && c * den ≤ high else low < c * den && c * den < high
  let below := centre / den
  let above := below + 1
  match inside below, inside above with
  | true, true =>
    let up := above * den - centre
    let down := centre - below * den
    some (if down < up ∨ (down = up ∧ below % 2 = 0) then below else above)
  | true, false => some below
  | false, true => some above
  | false, false => none

/-- The decimal exponent of the leading digit of the number. -/
def Interval.leading (v : Interval) : Int :=
  let (num, den) := onGrid v.centre v.exponent (-400)
  ((digits (num / den)).length : Int) - 401

/-- Strips trailing zeros, at most `fuel` of them. -/
def Scientific.stripZeros : Nat → Scientific → Scientific
  | 0, s => s
  | fuel + 1, s =>
    if s.digits ≠ 0 ∧ s.digits % 10 = 0 then
      Scientific.stripZeros fuel ⟨s.digits / 10, s.exponent + 1⟩
    else s

/-- The shortest decimal that reads back as the number: the first of the grids with one, two, …
digits that has a hit. -/
def Interval.shortest (v : Interval) : Scientific :=
  let grids := (List.range 17).map fun n : Nat => v.leading - (n : Int)
  match grids.findSome? fun power => (v.hit? power).map fun d => Scientific.mk d power with
  | some s => s.stripZeros 20
  | none => ⟨0, 0⟩

def Scientific.text (s : Scientific) : List Char :=
  let ds := Number.digits s.digits
  let point : Int := ds.length + s.exponent
  if 0 ≤ s.exponent ∧ point ≤ 16 then
    ds ++ List.replicate s.exponent.toNat '0' ++ ".0".toList
  else if 0 < point ∧ point ≤ 16 then
    ds.take point.toNat ++ '.' :: ds.drop point.toNat
  else if -5 < point ∧ point ≤ 0 then
    "0.".toList ++ List.replicate (-point).toNat '0' ++ ds
  else
    let e := point - 1
    let tail := if e < 0 then '-' :: Number.digits e.natAbs else Number.digits e.natAbs
    match ds with
    | [d] => d :: 'e' :: tail
    | d :: rest => d :: '.' :: rest ++ 'e' :: tail
    | [] => []

def floatText (x : Float) : String :=
  let bits := x.toBits.toNat
  let sign := if bits / 0x8000000000000000 = 1 then ['-'] else []
  let magnitude := bits % 0x8000000000000000
  let body := if magnitude = 0 then "0.0".toList else (Interval.ofBits magnitude).shortest.text
  String.ofList (sign ++ body)

end BackgroundJobs.Number

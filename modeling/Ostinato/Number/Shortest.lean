import Ostinato.Number.Binary64

/-!
# The shortest decimal text of a double

A double is written with the fewest significant digits that read back as the same double, and
among those with the digits nearest to it.
-/

namespace Ostinato

/-- The decimal `0.d₁d₂… * 10 ^ point`. -/
structure Decimal where
  digits : List Char
  point : Int
  deriving DecidableEq, Repr

namespace Decimal

/-- The number of decimal digits of a natural number. -/
def width (n : Nat) : Nat := (Nat.toDigits 10 n).length

/-- The decimal `n * 10 ^ shift`, without its trailing zeros. -/
def ofNat (n : Nat) (shift : Int) : Decimal :=
  let digits := Nat.toDigits 10 n
  let kept := (digits.reverse.dropWhile (· = '0')).reverse
  ⟨if kept.isEmpty then ['0'] else kept, digits.length + shift⟩

/-- The power of ten just above `n / d`: the least `p` with `n / d < 10 ^ p`, for positive `n` and
`d`. -/
def magnitude (n d : Nat) : Int :=
  if d ≤ n then width (n / d) else 1 - width ((d - 1) / n)

/-- The open or closed interval of the rationals that round to a double, with the double itself:
all over the common denominator `den`. -/
structure Interval where
  low : Nat
  value : Nat
  high : Nat
  den : Nat
  closed : Bool

/-- The rounding interval of `m * 2 ^ e`. Just above a power of two the lower gap is half as
wide. -/
def Interval.of (m : Nat) (e : Int) : Interval :=
  let up := Nat.pow 2 e.toNat
  let low := if m = Nat.pow 2 52 ∧ Binary64.minExponent < e then 4 * m - 1 else 4 * m - 2
  ⟨low * up, 4 * m * up, (4 * m + 2) * up, 4 * Nat.pow 2 (-e).toNat, m % 2 = 0⟩

/-- Whether `n / d` lies in the interval. -/
def Interval.contains (i : Interval) (n d : Nat) : Bool :=
  if i.closed then i.low * d ≤ n * i.den && n * i.den ≤ i.high * d
  else i.low * d < n * i.den && n * i.den < i.high * d

/-- The decimal of `count` digits in the interval that is nearest to the value, if there is one:
only the value's two neighbours on that grid can be. -/
def Interval.grid (i : Interval) (p : Int) (count : Nat) : Option Decimal :=
  let shift := p - count
  let up := Nat.pow 10 shift.toNat
  let down := Nat.pow 10 (-shift).toNat
  let c := i.value * down / (i.den * up)
  let lower := i.contains (c * up) down
  let upper := i.contains ((c + 1) * up) down
  -- twice the way from the lower neighbour, against the grid's step
  let past := 2 * (i.value * down - c * (i.den * up))
  let step := i.den * up
  if lower && upper then
    some (ofNat (if past < step ∨ past = step ∧ c % 2 = 0 then c else c + 1) shift)
  else if lower then some (ofNat c shift)
  else if upper then some (ofNat (c + 1) shift)
  else none

/-- The first grid that has a decimal in the interval, from `count` digits on. -/
def Interval.shortestFrom (i : Interval) (p : Int) : Nat → Nat → Option Decimal
  | 0, _ => none
  | more + 1, count =>
    match i.grid p count with
    | some d => some d
    | none => i.shortestFrom p more (count + 1)

/-- The shortest decimal that reads back as `m * 2 ^ e`; seventeen digits always do. -/
def shortest (m : Nat) (e : Int) : Decimal :=
  if m = 0 then ⟨['0'], 1⟩
  else
    let i := Interval.of m e
    let p := magnitude i.value i.den
    (i.shortestFrom p 17 1).getD ⟨['0'], 1⟩

/-- Positional notation reaches from here … -/
def leastPositional : Int := -4

/-- … to here; beyond, an exponent is written. -/
def greatestPositional : Int := 16

/-- An exponent with its sign and at least two digits. -/
def exponentChars (e : Int) : List Char :=
  let digits := Nat.toDigits 10 e.natAbs
  (if e < 0 then '-' else '+') :: if digits.length < 2 then '0' :: digits else digits

/-- The text of a decimal: a point or an exponent always tells it from an integer. -/
def chars (d : Decimal) : List Char :=
  if leastPositional < d.point ∧ d.point ≤ greatestPositional then
    if d.point ≤ 0 then '0' :: '.' :: (List.replicate (-d.point).toNat '0' ++ d.digits)
    else
      let whole := d.digits.take d.point.toNat
      let fraction := d.digits.drop d.point.toNat
      if fraction.isEmpty then
        whole ++ List.replicate (d.point.toNat - whole.length) '0' ++ ['.', '0']
      else whole ++ '.' :: fraction
  else
    let fraction := d.digits.drop 1
    d.digits.take 1 ++ (if fraction.isEmpty then [] else '.' :: fraction) ++
      'e' :: exponentChars (d.point - 1)

end Decimal

/-- The text of a double. -/
def Binary64.chars : Binary64 → List Char
  | nan => ['n', 'a', 'n']
  | infinite negative => (if negative then ['-'] else []) ++ ['i', 'n', 'f']
  | finite negative m e => (if negative then ['-'] else []) ++ (Decimal.shortest m e).chars

/-- The text of a double. -/
def Binary64.text (x : Binary64) : String := String.ofList x.chars

end Ostinato

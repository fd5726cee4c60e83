import Ostinato.Number.Rounding

/-!
# Double-precision numbers, taken exactly

A finite double is a signed integer times a power of two. Nothing here uses run-time floating
point: sums, products and readings of decimals are computed exactly and rounded once, to nearest
with ties to even.
-/

namespace Ostinato

/-- A double-precision number. A finite one is `significand * 2 ^ exponent`, negated when
`negative`; zero keeps its sign. -/
inductive Binary64
  | nan
  | infinite (negative : Bool)
  | finite (negative : Bool) (significand : Nat) (exponent : Int)
  deriving DecidableEq, Repr, Inhabited

namespace Binary64

/-- The least exponent of a finite double; the subnormal numbers have it. -/
def minExponent : Int := -1074

/-- The greatest exponent of a finite double. -/
def maxExponent : Int := 971

/-- Zero with a sign. -/
def zero (negative : Bool) : Binary64 := finite negative 0 minExponent

/-- A non-negative integer times a power of two, as a rational. -/
def scaled (m : Nat) (e : Int) : Rat :=
  if 0 ≤ e then (m * Nat.pow 2 e.toNat : Nat) else mkRat m (Nat.pow 2 (-e).toNat)

/-- The exact value of a finite double. -/
def toRat? : Binary64 → Option Rat
  | finite negative m e => some (if negative then -scaled m e else scaled m e)
  | _ => none

/-- The integer that a finite double is, if it is one. -/
def toInt? (x : Binary64) : Option Int :=
  x.toRat?.bind fun q => if q.den = 1 then some q.num else none

/-- The double nearest to `n / d`, with the given sign; ties go to the even significand. -/
def ofRatio (negative : Bool) (n d : Nat) : Binary64 :=
  if n = 0 then zero negative
  else
    -- `2 ^ (k - 1) < n / d < 2 ^ (k + 1)`
    let k : Int := n.log2 - d.log2
    let reaches :=
      if 0 ≤ k then decide (d * Nat.pow 2 k.toNat ≤ n)
      else decide (d ≤ n * Nat.pow 2 (-k).toNat)
    let e : Int := max ((if reaches then k else k - 1) - 52) minExponent
    let m := if 0 ≤ e then divRoundHalfEven n (d * Nat.pow 2 e.toNat)
      else divRoundHalfEven (n * Nat.pow 2 (-e).toNat) d
    let (m, e) := if m = Nat.pow 2 53 then (Nat.pow 2 52, e + 1) else (m, e)
    if maxExponent < e then infinite negative else finite negative m e

/-- The double nearest to a rational; a zero result is positive. -/
def ofRat (q : Rat) : Binary64 :=
  ofRatio (decide (q.num < 0)) q.num.natAbs q.den

/-- The double nearest to `digits * 10 ^ exponent`. The exponent is looked at before any power is
built, so an absurd one costs nothing. -/
def ofDecimal (negative : Bool) (digits : Nat) (exponent : Int) : Binary64 :=
  if digits = 0 then zero negative
  else
    let size : Int := (Nat.toDigits 10 digits).length + exponent
    if 400 < size then infinite negative
    else if size < -400 then zero negative
    else if 0 ≤ exponent then ofRatio negative (digits * Nat.pow 10 exponent.toNat) 1
    else ofRatio negative digits (Nat.pow 10 (-exponent).toNat)

/-- The same magnitude with the opposite sign. -/
def neg : Binary64 → Binary64
  | nan => nan
  | infinite negative => infinite !negative
  | finite negative m e => finite (!negative) m e

/-- The rounded sum. -/
def add : Binary64 → Binary64 → Binary64
  | nan, _ => nan
  | _, nan => nan
  | infinite s, infinite t => if s = t then infinite s else nan
  | infinite s, _ => infinite s
  | _, infinite t => infinite t
  | finite s m e, finite t m' e' =>
    match (finite s m e).toRat?, (finite t m' e').toRat? with
    | some a, some b => if a + b = 0 then zero (s && t) else ofRat (a + b)
    | _, _ => nan

/-- The rounded product. -/
def mul : Binary64 → Binary64 → Binary64
  | nan, _ => nan
  | _, nan => nan
  | infinite s, infinite t => infinite (s != t)
  | infinite s, finite t m _ => if m = 0 then nan else infinite (s != t)
  | finite s m _, infinite t => if m = 0 then nan else infinite (s != t)
  | finite s m e, finite t m' e' =>
    let q := scaled m e * scaled m' e'
    ofRatio (s != t) q.num.natAbs q.den

end Binary64

end Ostinato

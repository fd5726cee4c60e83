/-!
# The text of integers and fractions

An integer is written in decimal. A fraction is written in lowest terms, and a whole one without its
denominator.
-/

namespace Ostinato

/-- An integer in decimal. -/
def integerChars (i : Int) : List Char :=
  if i < 0 then '-' :: Nat.toDigits 10 i.natAbs else Nat.toDigits 10 i.natAbs

/-- An integer in decimal. -/
def integerText (i : Int) : String := String.ofList (integerChars i)

/-- A fraction. -/
def fractionText (q : Rat) : String :=
  if q.den = 1 then integerText q.num
  else integerText q.num ++ "/" ++ integerText q.den

end Ostinato

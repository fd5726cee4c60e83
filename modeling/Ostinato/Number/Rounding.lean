/-!
# Rounding to the nearest integer

Both roundings send a half to the even neighbour, so no direction is favoured over a long run of
halves.
-/

namespace Ostinato

/-- The integer nearest to a rational; a half goes to the even neighbour. -/
def roundHalfEven (x : Rat) : Int :=
  let below := x.floor
  let rest := x - below
  if rest < 1 / 2 then below
  else if 1 / 2 < rest then below + 1
  else if below % 2 = 0 then below
  else below + 1

/-- The natural number nearest to the quotient `n / d`; a half goes to the even neighbour. -/
def divRoundHalfEven (n d : Nat) : Nat :=
  let q := n / d
  let twice := 2 * (n % d)
  if twice < d then q
  else if d < twice then q + 1
  else if q % 2 = 0 then q
  else q + 1

end Ostinato

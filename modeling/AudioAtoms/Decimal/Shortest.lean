import AudioAtoms.Decimal.Binary32

/-!
# Shortest decimal text

The text of a single has as few digits as any numeral that rounds to it, and of those with so few
digits it is the nearest. All digits are written in their place, there is no exponent.
-/
namespace AudioAtoms.Binary32

def quadruple (x : Binary32) : Nat := 4 * x.significand * 2 ^ x.exponent

/-- The middle between a single and the next smaller one, four times and in the same units. Just
above a power of two the smaller neighbour is half as far away as the larger one. -/
def lowerEnd (x : Binary32) : Nat :=
  x.quadruple - (if x.significand = 2 ^ 23 ∧ 0 < x.exponent then 1 else 2) * 2 ^ x.exponent

def upperEnd (x : Binary32) : Nat := x.quadruple + 2 * 2 ^ x.exponent

/-- Decimal places kept while looking for digits. The smallest single is above `10 ^ (-45)`, so
this leaves room for more digits than any single needs. -/
def gridPlaces : Nat := 60

/-- Whether `c / 10 ^ gridPlaces` rounds to the single. The ends belong to the even significand. -/
def roundsTo (x : Binary32) (c : Nat) : Bool :=
  let scaled := c * 4 * 2 ^ 149
  let low := x.lowerEnd * 10 ^ gridPlaces
  let high := x.upperEnd * 10 ^ gridPlaces
  if x.significand % 2 = 0 then low ≤ scaled && scaled ≤ high else low < scaled && scaled < high

/-- The best point on the grid of multiples of `step` that rounds to the single: the nearer of the
two around it, the larger one if both are equally near. -/
def onGrid? (x : Binary32) (step : Nat) : Option Nat :=
  let exact := x.quadruple * 10 ^ gridPlaces
  let unit := step * 4 * 2 ^ 149
  let below := exact / unit * step
  let above := below + step
  match x.roundsTo below, x.roundsTo above with
  | true, true => some (if 2 * (exact % unit) < unit then below else above)
  | true, false => some below
  | false, true => some above
  | false, false => none

def shortest (x : Binary32) : Nat :=
  let floor := x.quadruple * 10 ^ gridPlaces / (4 * 2 ^ 149)
  let size := (Nat.toDigits 10 floor).length
  ((List.range' 1 17).findSome? fun n => x.onGrid? (10 ^ (size - n))).getD floor

def fractionText (c : Nat) : List Char :=
  let digits := Nat.toDigits 10 (10 ^ gridPlaces + c)
  let kept := ((digits.drop 1).reverse.dropWhile (· = '0')).reverse
  if kept = [] then [] else '.' :: kept

/-- A single in decimal. Whole numbers have no point, and zero keeps its sign. -/
def text (x : Binary32) : String :=
  let c := if x.word = 0 then 0 else x.shortest
  let magnitude := Nat.toDigits 10 (c / 10 ^ gridPlaces) ++ fractionText (c % 10 ^ gridPlaces)
  String.ofList (if x.isNegative then '-' :: magnitude else magnitude)

end AudioAtoms.Binary32

import AudioAtoms.Bytes

/-!
# Decimal numerals

A numeral is a sign, a row of digits and the number of those digits that stand behind the point.
-/
namespace AudioAtoms

/-- The number `± digits / 10 ^ places`. -/
structure Numeral where
  negative : Bool
  digits : Nat
  places : Nat
deriving DecidableEq, Repr

namespace Numeral

def ofDigits (cs : List Char) : Nat :=
  cs.foldl (fun n c => n * 10 + (c.toNat - '0'.toNat)) 0

def splitSign : List Char → Bool × List Char
  | '-' :: cs => (true, cs)
  | '+' :: cs => (false, cs)
  | cs => (false, cs)

def fraction : List Char → List Char
  | '.' :: cs => cs.takeWhile Char.isDigit
  | _ => []

/-- The numeral at the front of a text. Digits may be missing on one side of the point, not on
both. What follows the numeral does not matter. -/
def leading? (cs : List Char) : Option Numeral :=
  let (negative, cs) := splitSign cs
  let whole := cs.takeWhile Char.isDigit
  let part := fraction (cs.dropWhile Char.isDigit)
  if whole ++ part = [] then none else some ⟨negative, ofDigits (whole ++ part), part.length⟩

end Numeral

end AudioAtoms

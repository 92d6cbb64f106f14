import AudioAtoms.Decimal.Numeral
import AudioAtoms.Text.Blank

/-!
# Years

A date is free text that usually starts with a year.
-/
namespace AudioAtoms.Date

def earliestYear : Nat := 1900

def leadingDigits (date : String) : List Char :=
  ((date.toList.dropWhile Text.isBlank).takeWhile Char.isDigit).take 9

/-- The year at the front of a date, if it is not before the earliest one. -/
def year? (date : String) : Option Nat :=
  let digits := leadingDigits date
  let year := Numeral.ofDigits digits
  if digits = [] ∨ year < earliestYear then none else some year

end AudioAtoms.Date

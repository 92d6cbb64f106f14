import AudioAtoms.Decimal.Numeral

/-!
# Single precision numbers

A finite single is `± m * 2 ^ p` in units of `2 ^ (-149)` with `m < 2 ^ 24`. Its word without the
sign is `p * 2 ^ 23 + m`, so a carry out of the significand lands in the exponent, and the words of
finite singles are those below that of infinity.
-/
namespace AudioAtoms

structure Binary32 where
  bits : UInt32
deriving DecidableEq, Repr

namespace Binary32

/-- The nearest whole number to `num / den`; a half goes to the even neighbour. -/
def roundDiv (num den : Nat) : Nat :=
  let q := num / den
  let r := num % den
  if 2 * r < den then q else if den < 2 * r then q + 1 else q + q % 2

def signWord : Nat := 2 ^ 31

def infinityWord : Nat := 255 * 2 ^ 23

/-- The word of the single nearest to `num / den`, without bound on the exponent. -/
def nearestWord (num den : Nat) : Nat :=
  let scaled := num * 2 ^ 149
  let p := Nat.log2 (scaled / den) - 23
  p * 2 ^ 23 + roundDiv scaled (den * 2 ^ p)

/-- The single nearest to a numeral, a half going to the even significand. There is none if the
numeral rounds beyond the largest finite single. -/
def nearest? (x : Numeral) : Option Binary32 :=
  let word := nearestWord x.digits (10 ^ x.places)
  if word < infinityWord then
    some ⟨UInt32.ofNat (if x.negative then signWord + word else word)⟩
  else none

def isNegative (x : Binary32) : Bool := signWord ≤ x.bits.toNat

def word (x : Binary32) : Nat := x.bits.toNat % signWord

def exponent (x : Binary32) : Nat := x.word / 2 ^ 23 - 1

def significand (x : Binary32) : Nat := x.word - x.exponent * 2 ^ 23

end Binary32

end AudioAtoms

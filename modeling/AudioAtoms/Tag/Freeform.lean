import AudioAtoms.Bytes
import AudioAtoms.Text.Blank

/-!
# Free-form tags

A free-form tag has a name in place of a code. Four names stand for fields of the record.
-/
namespace AudioAtoms.Freeform

inductive Key where
  | composer
  | gapless
  | musicBrainzTrack
  | albumArtist
deriving DecidableEq, Repr

def key? (name : String) : Option Key :=
  if name = "composer" then some .composer
  else if name = "iTunSMPB" then some .gapless
  else if name = "musicbrainz track id" then some .musicBrainzTrack
  else if name = "album artist" then some .albumArtist
  else none

def hexDigit? (c : Char) : Option Nat :=
  if '0' ≤ c ∧ c ≤ '9' then some (c.toNat - '0'.toNat)
  else if 'a' ≤ c ∧ c ≤ 'f' then some (c.toNat - 'a'.toNat + 10)
  else if 'A' ≤ c ∧ c ≤ 'F' then some (c.toNat - 'A'.toNat + 10)
  else none

/-- The low 32 bits of the number that the leading digits of base sixteen write. -/
def hexWord (cs : List Char) : Nat :=
  (cs.takeWhile fun c => (hexDigit? c).isSome).foldl
    (fun n c => (n * 16 + (hexDigit? c).getD 0) % 2 ^ 32) 0

/-- A field of a gapless value, counted from zero. A field that is not there is zero. -/
def gaplessField (value : String) (index : Nat) : Nat :=
  ((Text.fields value.toList)[index]?.map hexWord).getD 0

end AudioAtoms.Freeform

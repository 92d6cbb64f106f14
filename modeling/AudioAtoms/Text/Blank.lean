/-!
# Blanks

Two sets of blank characters are in use. Text before a number may start with any of the six ASCII
blanks. Fields of a gapless value are set apart by five of them: the vertical tab is not one.
-/
namespace AudioAtoms.Text

def isSeparator (c : Char) : Bool :=
  c = ' ' || c = '\t' || c = '\n' || c = '\x0c' || c = '\r'

def isBlank (c : Char) : Bool :=
  isSeparator c || c = '\x0b'

/-- The text between any two separators, empty where they stand side by side. -/
def pieces : List Char → List (List Char)
  | [] => [[]]
  | c :: cs =>
    if isSeparator c then [] :: pieces cs
    else
      match pieces cs with
      | [] => [[c]]
      | piece :: rest => (c :: piece) :: rest

def fields (cs : List Char) : List (List Char) := (pieces cs).filter (· ≠ [])

end AudioAtoms.Text

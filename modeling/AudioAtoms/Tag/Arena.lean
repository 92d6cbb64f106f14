import AudioAtoms.Notice

/-!
# Text arena

Tag values share a fixed amount of memory. A value is read into the spare part behind the values
kept so far, and becomes one of them when it is committed. A kept value ends with a zero octet.
-/
namespace AudioAtoms

structure Arena where
  /-- The values kept so far, each with its zero octet. -/
  kept : Bytes
  spare : Bytes
deriving DecidableEq, Repr

namespace Arena

inductive Refusal where
  | nothing
  | noRoom (size : Nat)
deriving DecidableEq, Repr

/-- Only a lack of room is remarked on. -/
def Refusal.notice? : Refusal → Option Notice
  | nothing => none
  | noRoom size => some (.noRoom size)

def ofCapacity (n : Nat) : Arena := ⟨[], List.replicate n 0⟩

def used (a : Arena) : Nat := a.kept.length

def remaining (a : Arena) : Nat := a.spare.length

def room (a : Arena) : Nat := a.remaining - 1

/-- Puts octets at the front of the spare part, as many as it holds. -/
def write (a : Arena) (bs : Bytes) : Arena :=
  ⟨a.kept, bs.take a.spare.length ++ a.spare.drop bs.length⟩

/-- The size of the value in the first `filled` spare octets, with its zero octet and cut to
`maxSize`. -/
def valueSize (a : Arena) (filled maxSize : Nat) : Nat :=
  min ((Bytes.untilNul (a.spare.take filled)).length + 1) maxSize

def valueText (a : Arena) (size : Nat) : String := Text.decode (a.spare.take (size - 1))

/-- Keeps the value in the first `filled` spare octets, cut to `maxSize`. -/
def commit (a : Arena) (filled maxSize : Nat) : Except Refusal (String × Arena) :=
  if filled = 0 ∨ maxSize = 0 then .error .nothing
  else
    let size := a.valueSize filled maxSize
    if a.remaining < size then .error (.noRoom size)
    else .ok (a.valueText size, ⟨a.kept ++ a.spare.take (size - 1) ++ [0], a.spare.drop size⟩)

/-- The value in the first `filled` spare octets, which is not kept. -/
def peek (a : Arena) (filled maxSize : Nat) : Option String :=
  if filled = 0 ∨ maxSize = 0 then none
  else some (a.valueText (min (a.valueSize filled maxSize) (a.remaining + 1)))

def alloc (a : Arena) (text : String) : Except Refusal (String × Arena) :=
  let size := (Text.encode text).length + 1
  if a.remaining < size then .error (.noRoom size)
  else .ok (text, ⟨a.kept ++ Text.encode text ++ [0], a.spare.drop size⟩)

end Arena

end AudioAtoms

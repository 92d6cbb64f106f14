import AudioAtoms.Atom.Header
import AudioAtoms.Stream.Window

/-!
# Small atoms

The payloads of atoms that hold no other atoms. Each is read inside a window of its size. A payload
that ends too early is passed over: the atom is as good as absent, and what follows it is read.
-/
namespace AudioAtoms

inductive Handler where
  | sound
  | directory
  | other (code : Code)
deriving DecidableEq, Repr

def Handler.ofCode (code : Code) : Handler :=
  if code = .ofChars 's' 'o' 'u' 'n' then .sound
  else if code = .ofChars 'm' 'd' 'i' 'r' then .directory
  else .other code

namespace Leaf
variable {bounded : Bool} {α : Type}

/-- Reads a payload inside a window of its size and moves over the rest of it. -/
def read (h : Header) (payload : Read true α) : Read bounded (Option α) := do
  let (result, window) ← Read.lift (payload.run.within (.ofSize h.dataSize))
  let found ← match result with
    | .ok a => pure (some a)
    | .error e =>
      if window.refused then
        Read.note (.malformedAtom h.kind e)
        pure none
      else throw e
  Read.skip window.left
  return found

def handler : Read bounded Handler := do
  Read.skip 8
  let code ← Read.code
  Read.note (.handler code)
  return .ofCode code

def brand : Read bounded Code := do
  let code ← Read.code
  Read.note (.brand code)
  return code

def firstChapter : Read bounded (Option Nat) := do
  Read.skip 8
  let count ← Read.number 1
  if count = 0 then return none
  return some (← Read.number 8)

def ticksPerSecond : Nat := 10000000

def samplesBefore (tick sampleRate : Nat) : Nat :=
  min (tick * sampleRate / ticksPerSecond) (2 ^ 32 - 1)

end Leaf

end AudioAtoms

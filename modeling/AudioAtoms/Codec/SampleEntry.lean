import AudioAtoms.Atom.Header
import AudioAtoms.Codec.Descriptor

/-!
# Audio sample entries

A sample entry names the codec of a track. Behind fixed fields it holds an atom with the
configuration of the decoder.
-/
namespace AudioAtoms.SampleEntry
variable {bounded : Bool}

def fixedSize : Nat := 28

/-- Moves to the configuration atom of an entry and reads its header, if the entry has room for
one. -/
def inner? (dataSize : Nat) : Read bounded (Option Header) := do
  if dataSize - fixedSize < Header.minSize then return none
  Read.skip fixedSize
  return some (← Header.read (dataSize - fixedSize))

def aac (dataSize : Nat) : Read bounded (Option ElementaryStream) := do
  match ← inner? dataSize with
  | some ⟨.elementaryStream, _, size⟩ =>
    let room := dataSize - fixedSize - Header.minSize
    return some (← Read.lift (ElementaryStream.read (min size room)))
  | _ => return none

def alac (dataSize : Nat) : Read bounded (Option Nat) := do
  match ← inner? dataSize with
  | some ⟨.alacEntry, _, size⟩ =>
    if size < 28 then return none
    Read.skip 24
    return some (← Read.number 4)
  | _ => return none

end AudioAtoms.SampleEntry

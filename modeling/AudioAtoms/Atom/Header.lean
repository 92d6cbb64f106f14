import AudioAtoms.Scan

/-!
# Atom headers

An atom starts with its size and its code. Its whole size is charged to the octets left in its
parent; an atom that declares more than that leaves its parent empty.
-/
namespace AudioAtoms

structure Header where
  kind : Kind
  /-- Whether the size takes 64 bits. -/
  wide : Bool
  /-- The size of the payload. -/
  dataSize : Nat
deriving DecidableEq, Repr

namespace Header

def minSize : Nat := 8

def ownSize (h : Header) : Nat := if h.wide then minSize + 8 else minSize

def size (h : Header) : Nat := h.ownSize + h.dataSize

def leave (h : Header) (budget : Nat) : Nat := budget - h.size

theorem minSize_le_size (h : Header) : minSize ≤ h.size := by
  unfold size ownSize
  split <;> omega

theorem leave_lt (h : Header) {budget : Nat} (hb : minSize ≤ budget) : h.leave budget < budget := by
  have := h.minSize_le_size
  unfold leave minSize at *
  omega

variable {bounded : Bool}

/-- Reads a header in a parent with `budget` octets left. Size zero stands for the rest of the
parent. A size below that of a header counts as no payload. An atom with a 64-bit size is not
interpreted: its code is cleared, so that it is passed over. -/
def read (budget : Nat) : Read bounded Header := do
  let declared ← Read.number 4
  let code ← Read.code
  if declared = 0 then
    return ⟨.ofCode code, false, budget - minSize⟩
  else if declared = 1 then
    let size := max (← Read.number 8) (minSize + 8)
    Read.note (.wideSize code size)
    return ⟨.other ⟨0, 0, 0, 0⟩, true, size - (minSize + 8)⟩
  else
    if declared < minSize then Read.note (.shortSize code declared)
    return ⟨.ofCode code, false, declared - minSize⟩

end Header

end AudioAtoms

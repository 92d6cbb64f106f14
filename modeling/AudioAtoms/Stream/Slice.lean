import AudioAtoms.Scan

/-!
# Slices

Octets that are all in memory. A request for more than is left fails and leaves the slice where it
was.
-/
namespace AudioAtoms

structure Slice where
  pos : Nat
  rest : Bytes
deriving DecidableEq, Repr

namespace Slice

def ofBytes (bs : Bytes) : Slice := ⟨0, bs⟩

def size (s : Slice) : Nat := s.pos + s.rest.length

def advance (s : Slice) (n : Nat) : Slice := ⟨s.pos + n, s.rest.drop n⟩

/-- Whether so many octets are left. Only those octets are looked at. -/
def has (s : Slice) (n : Nat) : Bool := (s.rest.take n).length = n

@[simp] theorem has_iff (s : Slice) (n : Nat) : s.has n = true ↔ n ≤ s.rest.length := by
  simp only [has, List.length_take, decide_eq_true_eq]
  omega

variable {bounded : Bool}

def answer (q : Request bounded) (s : Slice) : q.Answer × Slice :=
  match q with
  | .exactly n => if s.has n then (.ok (s.rest.take n), s.advance n) else (.error .underrun, s)
  | .upTo n => (.ok (s.rest.take n), s.advance (s.rest.take n).length)
  | .skip n => if s.has n then (.ok (), s.advance n) else (.error .underrun, s)
  | .position => (s.pos, s)
  | .remaining _ => (s.rest.length, s)

instance : ByteStream bounded Slice where
  answer := answer

theorem answer_exactly (n : Nat) (s : Slice) :
    ByteStream.answer (.exactly n : Request bounded) s =
      if n ≤ s.rest.length then (.ok (s.rest.take n), s.advance n) else (.error .underrun, s) := by
  simp only [← has_iff]
  rfl

theorem answer_upTo (n : Nat) (s : Slice) :
    ByteStream.answer (.upTo n : Request bounded) s =
      (.ok (s.rest.take n), s.advance (min n s.rest.length)) := by
  rw [← List.length_take]
  rfl

theorem answer_skip (n : Nat) (s : Slice) :
    ByteStream.answer (.skip n : Request bounded) s =
      if n ≤ s.rest.length then (.ok (), s.advance n) else (.error .underrun, s) := by
  simp only [← has_iff]
  rfl

end Slice

end AudioAtoms

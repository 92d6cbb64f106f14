import AudioAtoms.Scan
import AudioAtoms.Stream.Source

/-!
# Buffered sources

A buffered source fetches octets ahead of need, one read of the source at a time, and hands them
out from its buffer. A fetch is made only when all octets in the buffer have been handed out. Moves
that stay inside the buffer do not touch the source; any other move is a seek, and drops the buffer.
-/
namespace AudioAtoms

structure Buffered where
  source : Source
  /-- The size of a read ahead. -/
  capacity : Nat
  capacity_pos : 0 < capacity
  /-- The octets of the last read. -/
  buffer : Array UInt8
  /-- How many of them have been handed out. -/
  taken : Nat
  /-- The position behind the buffer. -/
  endPos : Nat

namespace Buffered

def ofSource (source : Source) (capacity : Nat) (h : 0 < capacity) : Buffered :=
  ⟨source, capacity, h, #[], 0, source.tell?.getD 0⟩

def maxCapacity : Nat := 2 ^ 63 - 1

/-- A stream on a source, unless its buffer would be empty or too large. -/
def ofSource? (source : Source) (capacity : Nat) : Option Buffered :=
  if h : 0 < capacity ∧ capacity ≤ maxCapacity then some (ofSource source capacity h.1) else none

def unread (s : Buffered) : Nat := s.buffer.size - s.taken

def pos (s : Buffered) : Nat := s.endPos - s.unread

def length? (s : Buffered) : Option Nat := s.source.length?

def fetch (s : Buffered) : Except StreamError Unit × Buffered :=
  if s.unread = 0 then
    match s.source.read s.capacity with
    | (.ok bs, source) =>
      (.ok (), { s with source, buffer := bs, taken := 0, endPos := s.endPos + bs.size })
    | (.error e, source) => (.error e, { s with source })
  else (.ok (), s)

def front (s : Buffered) (n : Nat) : Bytes := (s.buffer.extract s.taken (s.taken + n)).toList

def takeFront (s : Buffered) (n : Nat) : Buffered :=
  { s with taken := s.taken + (s.front n).length }

/-- Reads up to `n` octets and stops short only at the end of the source. If the source fails on
the way, the octets read before are gone. -/
def readUpTo (s : Buffered) (n : Nat) : Except StreamError Bytes × Buffered :=
  if n = 0 then (.ok [], s)
  else
    match s.fetch with
    | (.error e, s) => (.error e, s)
    | (.ok (), s) =>
      if _ : s.front n = [] then (.ok [], s)
      else
        match (s.takeFront n).readUpTo (n - (s.front n).length) with
        | (.error e, t) => (.error e, t)
        | (.ok bs, t) => (.ok (s.front n ++ bs), t)
termination_by n
decreasing_by
  have := List.length_pos_iff.mpr ‹_›
  omega

def readExactly (s : Buffered) (n : Nat) : Except StreamError Bytes × Buffered :=
  match s.readUpTo n with
  | (.ok bs, t) => (if bs.length < n then .error .endOfStream else .ok bs, t)
  | (.error e, t) => (.error e, t)

/-- Moves by a signed word of 64 bits and gives the new position. The distance that the source has
to move is a signed word too, and wraps. -/
def seekBy (s : Buffered) (delta : Int) : Except StreamError Nat × Buffered :=
  if 0 ≤ delta ∧ delta ≤ s.unread then
    let t := { s with taken := s.taken + delta.toNat }
    (.ok t.pos, t)
  else if delta < 0 ∧ -delta ≤ s.taken then
    let t := { s with taken := s.taken - delta.natAbs }
    (.ok t.pos, t)
  else
    match s.source.seekBy ((delta - s.unread).bmod (2 ^ 64)) with
    | (.ok target, source) =>
      (.ok target, { s with source, buffer := #[], taken := 0, endPos := target })
    | (.error e, source) => (.error e, { s with source })

def holds (s : Buffered) (delta : Int) : Bool :=
  -(s.taken : Int) ≤ delta ∧ delta ≤ s.unread

/-- A seek in a program that checks its words. It stops where the distance for the source would
wrap. -/
def seek? (s : Buffered) (delta : Int) : Option (Except StreamError Nat × Buffered) :=
  if s.holds delta ∨ -2 ^ 63 ≤ delta - s.unread then some (s.seekBy delta) else none

def skip (s : Buffered) (n : Nat) : Except StreamError Unit × Buffered :=
  if n < 2 ^ 63 then
    match s.seekBy n with
    | (.ok _, t) => (.ok (), t)
    | (.error e, t) => (.error e, t)
  else (.error .skipTooLarge, s)

instance : ByteStream false Buffered where
  answer
    | .exactly n, s => s.readExactly n
    | .upTo n, s => s.readUpTo n
    | .skip n, s => s.skip n
    | .position, s => (s.pos, s)

end Buffered

end AudioAtoms

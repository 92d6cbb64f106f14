import AudioAtoms.Stream.Buffered
import AudioAtoms.Stream.Slice
import AudioAtoms.Walk

/-!
# Reading a file

After the walk the record must name an audio track. Its length and bit rate follow from what was
collected.
-/
namespace AudioAtoms

namespace Audio

/-- The length in milliseconds, to the nearest one, within 64 bits. -/
def milliseconds (a : Audio) : Nat :=
  min ((a.samples * 1000 + a.sampleRate / 2) / a.sampleRate) (2 ^ 64 - 1)

/-- The bits in a millisecond, rounded down, within 32 bits. -/
def averageRate (a : Audio) : Nat := min (a.bytes * 8 / a.milliseconds) (2 ^ 32 - 1)

end Audio

abbrev ReadFile := ExceptT ReadError (Scan false)

namespace ReadFile

def note (m : Notice) : ReadFile Unit := ExceptT.mk (.note m (.done (.ok ())))

def complete (t : Track) : ReadFile Track := do
  let a := t.audio
  if a.samples = 0 ∨ a.sampleRate = 0 ∨ a.bytes = 0 then
    note (.noAudioTrack a.samples a.sampleRate a.bytes)
    throw .noAudioTrack
  if a.codec = .unknown then
    note .unknownCodec
    throw .unknownCodec
  if a.milliseconds = 0 then
    note .invalidLength
    throw .invalidLength
  note (.summary a.averageRate a.sampleRate a.milliseconds)
  return { t with
    audio := { a with length := a.milliseconds, bitrate := a.averageRate, variableRate := true } }

def track (o : Options) (size : Nat) : ReadFile Track := do
  let (result, collected) ← ExceptT.lift ((Walk.walk o size).runFrom (.start o))
  match result with
  | .ok _ => complete collected.track
  | .error e => throw e

def buffered (o : Options) (s : Buffered) : ReadFile Track :=
  match s.length? with
  | some size => track o (size - s.pos)
  | none => throw .lengthUnknown

end ReadFile

namespace Track

/-- The record of a file of the given size that starts where a stream stands. -/
def read {σ : Type} [ByteStream false σ] (o : Options) (size : Nat) (s : σ) :
    Except ReadError Track :=
  ((ReadFile.track o size).run.run s).1

def ofBytes (o : Options) (bs : Bytes) : Except ReadError Track :=
  read o bs.length (Slice.ofBytes bs)

def ofBuffered (o : Options) (s : Buffered) : Except ReadError Track :=
  ((ReadFile.buffered o s).run.run s).1

def ofSource (o : Options) (source : Source) (capacity : Nat) (h : 0 < capacity) :
    Except ReadError Track :=
  ofBuffered o (.ofSource source capacity h)

end Track

end AudioAtoms

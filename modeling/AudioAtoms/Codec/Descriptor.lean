import AudioAtoms.Codec.Config
import AudioAtoms.Stream.Window

/-!
# Elementary stream descriptors

Descriptors are nested: the stream descriptor holds the decoder descriptor, which holds the decoder
configuration. Each starts with a tag octet and a length of one to four octets, seven bits in each.
Descriptors that end early or come in another order yield no configuration.
-/
namespace AudioAtoms

namespace Descriptor

def streamTag : Nat := 3

def decoderTag : Nat := 4

def configTag : Nat := 5

/-- Reads up to `n` octets of a length that has the given value so far. The length ends at the
first octet below 128, and at the end of the window. -/
def lengthFrom : Nat → Nat → Read true Nat
  | 0, value => return value
  | n + 1, value => do
    let octet ← Read.number 1
    let value := value * 128 + octet % 128
    if octet < 128 then return value
    if (← Read.remaining) = 0 then return value
    lengthFrom n value

def length : Read true Nat := lengthFrom 4 0

/-- Reads the decoder configuration out of the descriptors. The stream descriptor may be missing;
two octets then stand in its place. -/
def config : Read true (Option DecoderConfig) := do
  Read.skip 4
  if (← Read.number 1) = streamTag then
    if (← length) < 20 then return none
    Read.skip 3
  else
    Read.skip 2
  let tag ← Read.number 1
  if tag ≠ decoderTag then
    Read.note (.noDecoderConfig tag.toUInt8)
    return none
  if (← length) < 13 then return none
  Read.skip 13
  let tag ← Read.number 1
  if tag ≠ configTag then
    Read.note (.noDecoderSpecific tag.toUInt8)
    return none
  let size := min (min (← length) (← Read.remaining)) DecoderConfig.maxSize
  let bs ← Read.upTo size
  return some (.ofBytes (bs ++ List.replicate (size - bs.length) 0))

end Descriptor

structure ElementaryStream where
  config : Option DecoderConfig
deriving DecidableEq, Repr

namespace ElementaryStream
variable {bounded : Bool}

/-- Reads descriptors of the given size. No error gets out. -/
def read (size : Nat) : Scan bounded ElementaryStream := do
  let (result, _) ← Descriptor.config.run.within (.ofSize size)
  match result with
  | .ok config => return ⟨config⟩
  | .error e => .note (.descriptorsCut e) (.done ⟨none⟩)

def apply (s : ElementaryStream) (implicit : Bool) (known : Nat) : Nat × Bool :=
  match s.config with
  | some config => config.apply implicit known
  | none => (known, false)

end ElementaryStream

end AudioAtoms

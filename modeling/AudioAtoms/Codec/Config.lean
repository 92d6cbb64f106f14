import AudioAtoms.Bytes

/-!
# Decoder configuration

The configuration of an AAC decoder is a row of bit fields in at most eight octets. It tells the
sample rate and whether the high band is rebuilt by the decoder (spectral band replication), which
plays a track at up to twice the rate of its core.
-/
namespace AudioAtoms

structure DecoderConfig where
  bytes : Bytes
deriving DecidableEq, Repr

namespace DecoderConfig

def maxSize : Nat := 8

def ofBytes (bs : Bytes) : DecoderConfig := ⟨bs.take maxSize⟩

/-- All bits as one number of 64 bits; octets that are not there are zero. -/
def word (c : DecoderConfig) : Nat :=
  Bytes.toNat (c.bytes ++ List.replicate (maxSize - c.bytes.length) 0)

def field (c : DecoderConfig) (start width : Nat) : Nat :=
  c.word / 2 ^ (64 - start - width) % 2 ^ width

def rates : List Nat :=
  [96000, 88200, 64000, 48000, 44100, 32000, 24000, 22050, 16000, 12000, 11025, 8000]

def replicationType : Nat := 5

/-- The rate index that says that the rate itself follows. -/
def escapeIndex : Nat := 15

def syncPattern : Nat := 0x2b7

def maxCoreRate : Nat := 24000

def double (rate : Nat) : Nat := min (rate * 2) (2 ^ 32 - 1)

/-- The rate of an extension with its own index. An index that equals that of the core stands for
twice the rate. -/
def extensionRate (index extension explicit rate : Nat) : Nat :=
  let found := if extension = escapeIndex then explicit else rates[extension]?.getD rate
  if extension = index then double found else found

/-- The sample rate and whether the decoder replicates the high band, given the rate known before
and whether replication may be assumed. -/
def apply (c : DecoderConfig) (implicit : Bool) (known : Nat) : Nat × Bool :=
  let index := c.field 5 4
  let rate := rates[index]?.getD known
  if c.field 0 5 = replicationType then
    (extensionRate index (c.field 13 4) (c.field 17 24) rate, true)
  else if 4 ≤ c.bytes.length ∧ c.field 16 11 = syncPattern ∧ c.field 27 5 = replicationType then
    if c.field 32 1 = 1 then (extensionRate index (c.field 33 4) (c.field 37 24) rate, true)
    else (rate, false)
  else if implicit ∧ rate ≤ maxCoreRate then (double rate, true)
  else (rate, false)

end DecoderConfig

end AudioAtoms

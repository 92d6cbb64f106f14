import AudioAtoms.Tag.Tags

/-!
# Tracks

The record of a file: what its audio is, and what its tags say. Length and bit rate are worked out
at the end, until then they are zero.
-/
namespace AudioAtoms

inductive Codec where
  | unknown
  | aac
  | aacHe
  | alac
deriving DecidableEq, Repr

def Codec.text : Codec → String
  | unknown => "unknown"
  | aac => "AAC"
  | aacHe => "AAC-HE"
  | alac => "ALAC"

structure Audio where
  codec : Codec := .unknown
  /-- Samples in a second. -/
  sampleRate : Nat := 0
  samples : Nat := 0
  /-- The size of the encoded audio in octets. -/
  bytes : Nat := 0
  /-- The length in milliseconds. -/
  length : Nat := 0
  /-- Thousands of bits in a second. -/
  bitrate : Nat := 0
  variableRate : Bool := false
  /-- Samples to drop at the start. -/
  leadTrim : Nat := 0
  /-- Samples to drop at the end. -/
  tailTrim : Nat := 0
  /-- Whether durations were given in core samples and have been doubled. -/
  durationsDoubled : Bool := false
deriving DecidableEq, Repr

structure Track where
  brand : Option Code := none
  audio : Audio := {}
  tags : Tags := {}
deriving DecidableEq, Repr

structure Options where
  /-- The size of the arena for tag values. -/
  arenaSize : Nat := 2168
  /-- The most that a text value takes in the arena, with its zero octet. -/
  maxValueSize : Nat := 240
  /-- Whether band replication is assumed for low sample rates. -/
  implicitReplication : Bool := true
  findArtwork : Bool := true
deriving DecidableEq, Repr

end AudioAtoms

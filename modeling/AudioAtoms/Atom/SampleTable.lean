import AudioAtoms.Scan

/-!
# Sample durations

The time-to-sample table lists runs of frames of equal duration. Duration times count, summed over
the runs, is the length of the track in samples.
-/
namespace AudioAtoms

/-- A run of `count` frames of `delta` samples each. -/
structure SampleRun where
  count : Nat
  delta : Nat
deriving DecidableEq, Repr

namespace SampleRun

def coreFrame : Nat := 1024

/-- Whether the durations of a run count core samples although the track plays at twice the core
rate. -/
def halved (upsampled : Bool) (r : SampleRun) : Bool := upsampled && r.delta ≤ coreFrame

def samples (upsampled : Bool) (r : SampleRun) : Nat :=
  r.count * (if r.halved upsampled then r.delta * 2 else r.delta)

/-- The length of a track in samples, cut to 64 bits after every run. -/
def total (upsampled : Bool) (runs : List SampleRun) : Nat :=
  runs.foldl (fun n r => min (n + r.samples upsampled) (2 ^ 64 - 1)) 0

variable {bounded : Bool}

def readMany : Nat → List SampleRun → Read bounded (List SampleRun)
  | 0, runs => return runs.reverse
  | n + 1, runs => do
    let count ← Read.number 4
    let delta ← Read.number 4
    readMany n (⟨count, delta⟩ :: runs)

def capacity (dataSize : Nat) : Nat := min ((dataSize - 8) / 8) (2 ^ 32 - 1)

/-- Reads the table from a payload of the given size. A count that the payload cannot hold is
cut. -/
def readTable (dataSize : Nat) : Read bounded (List SampleRun) := do
  Read.skip 4
  let declared ← Read.number 4
  if capacity dataSize < declared then Read.note (.entriesCut declared)
  readMany (min declared (capacity dataSize)) []

end SampleRun

end AudioAtoms

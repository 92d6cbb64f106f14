import AudioAtoms.Proofs.Checked.Walk
import AudioAtoms.Proofs.Forest
import AudioAtoms.ReadFile

/-!
# Reading a file without a fault

Reading the record of a file in memory, with every operation on words and buffers checked, from the
size that is said to be the size of the file to the bit rate of the record. Whatever the octets, the
size and the options are, no operation faults, and the outcome is that of plain reading.
-/
namespace AudioAtoms
open Checked

namespace Audio

def millisecondsChecked (a : Audio) : Checked Nat := do
  let sum ← add 128 (← mul 128 a.samples 1000) (← div a.sampleRate 2)
  return min (← div sum a.sampleRate) (2 ^ 64 - 1)

def averageRateChecked (a : Audio) (length : Nat) : Checked Nat := do
  return min (← div (← mul 128 a.bytes 8) length) (2 ^ 32 - 1)

variable {a : Audio}

theorem Sized.millisecondsChecked_eq (ha : a.Sized) (hr : 0 < a.sampleRate) :
    a.millisecondsChecked = .ok a.milliseconds := by
  have hs := ha.samples
  have hrate := ha.sampleRate
  rw [millisecondsChecked, mul_ok (by omega), ok_bind, div_ok (by decide), ok_bind,
    add_ok (by omega), ok_bind, div_ok hr]
  rfl

theorem Sized.averageRateChecked_eq (ha : a.Sized) (hl : 0 < a.milliseconds) :
    a.averageRateChecked a.milliseconds = .ok a.averageRate := by
  have hb := ha.bytes
  rw [averageRateChecked, mul_ok (by omega), ok_bind, div_ok hl]
  rfl

end Audio

namespace ReadFile
open Guarded

def completeChecked (t : Track) : Guarded ReadError false Track := do
  let a := t.audio
  if a.samples = 0 ∨ a.sampleRate = 0 ∨ a.bytes = 0 then
    Guarded.note (.noAudioTrack a.samples a.sampleRate a.bytes)
    throw (.error .noAudioTrack)
  if a.codec = .unknown then
    Guarded.note .unknownCodec
    throw (.error .unknownCodec)
  let length ← check a.millisecondsChecked
  if length = 0 then
    Guarded.note .invalidLength
    throw (.error .invalidLength)
  let bitrate ← check (a.averageRateChecked length)
  Guarded.note (.summary bitrate a.sampleRate length)
  return { t with
    audio := { a with length := length, bitrate := bitrate, variableRate := true } }

def trackChecked (o : Options) (size : Nat) : Guarded ReadError false Track := do
  let (result, collected) ← ExceptT.lift ((Walk.walkChecked o size).runFrom (.start o))
  match result with
  | .ok _ => completeChecked collected.track
  | .error e => throw e

theorem guards_refusal (m : Notice) (e : ReadError) :
    (do Guarded.note m; throw (.error e) : Guarded ReadError false Track).Guards
      (do ReadFile.note m; throw e) fun _ => True :=
  (guards_note m).bind fun _ _ => guards_throw e

theorem guards_complete {t : Track} (ht : t.audio.Sized) :
    (completeChecked t).Guards (complete t) fun _ => True := by
  unfold completeChecked complete
  dsimp only
  by_cases hnone : t.audio.samples = 0 ∨ t.audio.sampleRate = 0 ∨ t.audio.bytes = 0
  · rw [if_pos hnone, if_pos hnone]
    exact guards_refusal _ _
  · rw [if_neg hnone, if_neg hnone]
    by_cases hcodec : t.audio.codec = .unknown
    · rw [if_pos hcodec, if_pos hcodec]
      exact guards_refusal _ _
    · rw [if_neg hcodec, if_neg hcodec]
      refine guards_check (ht.millisecondsChecked_eq (by omega)) ?_
      by_cases hlength : t.audio.milliseconds = 0
      · rw [if_pos hlength, if_pos hlength]
        exact guards_refusal _ _
      · rw [if_neg hlength, if_neg hlength]
        exact guards_check (ht.averageRateChecked_eq (Nat.pos_of_ne_zero hlength))
          ((guards_note _).bind fun _ _ => guards_pure trivial)

theorem sized_start {o : Options} (ho : o.arenaSize < 2 ^ 63) : (Collected.start o).Sized := by
  refine ⟨⟨Nat.two_pow_pos 64, Nat.two_pow_pos 32, Nat.two_pow_pos 64⟩, ?_⟩
  change 0 + (List.replicate o.arenaSize 0).length < 2 ^ 63
  rw [List.length_replicate, Nat.zero_add]
  exact ho

theorem guards_track {o : Options} (ho : o.arenaSize < 2 ^ 63) {size : Nat}
    (hsize : size < 2 ^ 64) :
    (trackChecked o size).Guards (track o size) fun _ => True := by
  constructor
  have hwalk := (Walk.guards_forest o Walk.maxDepth size hsize).run _ (sized_start ho)
  rw [trackChecked, track, Guarded.run_bind, Guarded.run_bind, Guarded.run_lift, Guarded.run_lift,
    Scan.bind_assoc, Scan.bind_assoc]
  refine hwalk.bind ?_
  rintro ⟨_, c⟩ ⟨_, _⟩ ⟨⟨_, _⟩ | e, rfl, hc⟩
  · exact (guards_complete hc.audio).run
  · exact .done _ _ (.error e)

end ReadFile

namespace Track

/-- The record of a file in memory, which is said to have the given size. There is none if the arena
does not fit into memory. -/
def readChecked (o : Options) (size : Nat) (file : Bytes) :
    Checked (Option (Except ReadError Track)) := do
  if 2 ^ 63 ≤ o.arenaSize then return none
  match ← (ReadFile.trackChecked o size).run.runChecked ⟨file, 0⟩ with
  | .ok t => return some (.ok t)
  | .error (.error e) => return some (.error e)
  | .error (.fault f) => throw f

/-- Reading a file in memory never faults: it reaches outside of no buffer, goes below zero nowhere,
exceeds the width of no word and does not divide by zero. Its outcome is that of plain reading. The
octets, the size that the file is said to have and the options are arbitrary. -/
theorem readChecked_eq_ok (o : Options) {size : Nat} (hsize : size < 2 ^ 64) {file : Bytes}
    (hfile : file.length < 2 ^ 63) :
    readChecked o size file =
      .ok (if o.arenaSize < 2 ^ 63 then some (read o size (Slice.ofBytes file)) else none) := by
  unfold readChecked
  by_cases ho : o.arenaSize < 2 ^ 63
  · have hmemory : Memory.Valid ⟨file, 0⟩ := ⟨Nat.zero_le _, hfile⟩
    obtain ⟨r, hr, hsound⟩ := (ReadFile.guards_track ho hsize).run.runChecked hmemory
    have hread : Sound (fun _ => True) r (read o size (Slice.ofBytes file)) := hsound
    rw [if_neg (Nat.not_le.2 ho), if_pos ho, hr, ok_bind]
    generalize read o size (Slice.ofBytes file) = outcome at hread
    cases hread with
    | ok t _ => rfl
    | error e => rfl
  · rw [if_pos (Nat.le_of_not_lt ho), if_neg ho]
    rfl

set_option maxRecDepth 2048 in
/-- The largest table entry, the lowest rate and audio data that takes up the largest possible file.
There is no room for tags. -/
theorem readChecked_eq_ok_extreme :
    let o : Options := { arenaSize := 0, maxValueSize := 0 }
    let times := Bytes.ofNat 4 0 ++ Bytes.ofNat 4 1 ++ Bytes.ofNat 4 (2 ^ 32 - 1) ++
      Bytes.ofNat 4 (2 ^ 32 - 1)
    let entry := List.replicate 28 0 ++
      Atom.octets Kind.alacEntry.code (List.replicate 24 0 ++ Bytes.ofNat 4 1)
    let title := Atom.octets Kind.title.code (List.replicate 16 0 ++ [65])
    let handler := List.replicate 8 0 ++ (Code.ofChars 'm' 'd' 'i' 'r').toBytes
    let file := Atom.octets Kind.timeToSample.code times ++
      Atom.octets Kind.alacEntry.code entry ++ Atom.octets Kind.handler.code handler ++
      Atom.octets Kind.tagList.code title ++ [0, 0, 0, 0] ++ Kind.mediaData.code.toBytes
    let m : Track :=
      { audio :=
          { codec := .alac, sampleRate := 1, samples := (2 ^ 32 - 1) * (2 ^ 32 - 1),
            bytes := 2 ^ 64 - 158, length := 2 ^ 64 - 1, bitrate := 7, variableRate := true } }
    2 ^ 64 - 1 < 2 ^ 64 ∧ file.length < 2 ^ 63 ∧
      readChecked o (2 ^ 64 - 1) file = .ok (some (.ok m)) := by
  intro o times entry title handler file m
  have hfile : file.length < 2 ^ 63 := by decide
  have hread : read o (2 ^ 64 - 1) (Slice.ofBytes file) = .ok m := by cbv
  refine ⟨by decide, hfile, ?_⟩
  rw [readChecked_eq_ok o (by decide) hfile, if_pos (by decide), hread]

end Track

end AudioAtoms

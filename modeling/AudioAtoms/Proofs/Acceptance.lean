import AudioAtoms.Proofs.ReadTrack
import AudioAtoms.Proofs.Steps
import Mathlib.Algebra.Order.Round
import Mathlib.Data.Rat.Floor

/-!
# Which records are accepted

A sample rate is told by sample entries only, and each entry names its codec. So a record with a
sample rate has a codec, whatever was walked over. It is accepted if and only if there are samples,
a sample rate and audio data and the samples last for at least half a millisecond. The length is
then the nearest number of milliseconds, a half rounded up.
-/
namespace AudioAtoms

namespace Audio

/-- A sample rate comes with a codec. -/
def Named (a : Audio) : Prop := a.sampleRate ≠ 0 → a.codec ≠ .unknown

/-- Audio that can be played: half a millisecond of it at least. -/
structure Playable (a : Audio) : Prop where
  samples_pos : 0 < a.samples
  sampleRate_pos : 0 < a.sampleRate
  bytes_pos : 0 < a.bytes
  sampleRate_le : a.sampleRate ≤ 2000 * a.samples

structure Meaningful (a : Audio) : Prop where
  samples_pos : 0 < a.samples
  sampleRate_pos : 0 < a.sampleRate
  bytes_pos : 0 < a.bytes
  length_pos : 0 < a.length
  codec : a.codec = .aac ∨ a.codec = .aacHe ∨ a.codec = .alac
  variableRate : a.variableRate = true
  length : (a.length : ℤ) = min (round ((a.samples * 1000 : ℚ) / a.sampleRate)) (2 ^ 64 - 1)
  bitrate : (a.bitrate : ℤ) = min ⌊(a.bytes * 8 : ℚ) / a.length⌋ (2 ^ 32 - 1)

end Audio

namespace Collected
variable {o : Options} {c d : Collected}

theorem Step.named (h : c.Step o d) (hc : c.track.audio.Named) : d.track.audio.Named := by
  cases h with
  | tag h =>
    have huntrimmed (a : Audio) : a.Named ↔ a.untrimmed.Named := Iff.rfl
    rw [huntrimmed, h.untrimmed]
    exact hc
  | stream stream =>
    intro _
    simp only [mapAudio, Content.withStream]
    split <;> decide
  | lossless rate => exact fun _ => nofun
  | runs runs => exact hc
  | chapter trim => exact hc
  | brand brand => exact hc
  | audio n => exact hc

/-- What one step keeps a run keeps. -/
theorem named_of_steps (h : Relation.ReflTransGen (Step o) c d) (hc : c.track.audio.Named) :
    d.track.audio.Named := by
  induction h with
  | refl => exact hc
  | tail _ hstep ih => exact hstep.named ih

end Collected

theorem Walk.named_walk {σ : Type} [ByteStream false σ] (o : Options) (budget : Nat) (s : σ) :
    ((walk o budget).exec (.start o) s).1.2.track.audio.Named :=
  Collected.named_of_steps ((makes_forest o maxDepth budget).exec _ s) (absurd rfl)

namespace Audio

/-- Half the divisor, rounded down, makes a division round to the nearest number. -/
theorem add_half_div (n d : ℕ) (hd : 0 < d) :
    (((n + d / 2) / d : ℕ) : ℤ) = round ((n : ℚ) / d) := by
  have hsum : (n : ℚ) / d + 1 / 2 = (n + (d : ℚ) / 2) / d := by field_simp
  have hhalf : ⌊(d : ℚ) / (2 : ℕ)⌋ = ((d / 2 : ℕ) : ℤ) := Rat.floor_natCast_div_natCast d 2
  calc (((n + d / 2) / d : ℕ) : ℤ)
      = (n + ((d / 2 : ℕ) : ℤ)) / d := by push_cast; rfl
    _ = ⌊(n : ℚ) + (d : ℚ) / 2⌋ / d := by rw [Int.floor_natCast_add, ← hhalf]; rfl
    _ = round ((n : ℚ) / d) := by rw [round_eq, hsum, Int.floor_div_natCast]

variable (a : Audio)

theorem milliseconds_eq (h : 0 < a.sampleRate) :
    (a.milliseconds : ℤ) = min (round ((a.samples * 1000 : ℚ) / a.sampleRate)) (2 ^ 64 - 1) := by
  have hround := add_half_div (a.samples * 1000) a.sampleRate h
  push_cast at hround
  rw [milliseconds, Nat.cast_min, ← hround]
  norm_num

theorem averageRate_eq :
    (a.averageRate : ℤ) = min ⌊(a.bytes * 8 : ℚ) / a.milliseconds⌋ (2 ^ 32 - 1) := by
  have hfloor := Rat.floor_natCast_div_natCast (a.bytes * 8) a.milliseconds
  push_cast at hfloor
  rw [averageRate, Nat.cast_min, hfloor]
  norm_num

/-- Half a millisecond makes a length. -/
theorem milliseconds_ne_zero_iff (h : 0 < a.sampleRate) :
    a.milliseconds ≠ 0 ↔ a.sampleRate ≤ 2000 * a.samples := by
  have hdiv : 0 < (a.samples * 1000 + a.sampleRate / 2) / a.sampleRate ↔
      a.sampleRate ≤ a.samples * 1000 + a.sampleRate / 2 := Nat.div_pos_iff.trans (and_iff_right h)
  rw [milliseconds]
  generalize (a.samples * 1000 + a.sampleRate / 2) / a.sampleRate = length at hdiv ⊢
  omega

end Audio

namespace Track
variable {t m : Track}

def withDerived (t : Track) : Track := t.withAudio t.audio.withDerived

theorem completed_eq_ok_iff :
    t.completed = .ok m ↔
      (0 < t.audio.samples ∧ 0 < t.audio.sampleRate ∧ 0 < t.audio.bytes) ∧
        t.audio.codec ≠ .unknown ∧ t.audio.milliseconds ≠ 0 ∧ t.withDerived = m := by
  rw [completed, Audio.completed]
  by_cases hnone : t.audio.samples = 0 ∨ t.audio.sampleRate = 0 ∨ t.audio.bytes = 0
  · rw [if_pos hnone]
    refine ⟨fun h => ?_, fun h => by omega⟩
    cases h
  by_cases hcodec : t.audio.codec = .unknown
  · rw [if_neg hnone, if_pos hcodec]
    refine ⟨fun h => ?_, fun h => absurd hcodec h.2.1⟩
    cases h
  by_cases hlength : t.audio.milliseconds = 0
  · rw [if_neg hnone, if_neg hcodec, if_pos hlength]
    refine ⟨fun h => ?_, fun h => absurd hlength h.2.2.1⟩
    cases h
  · rw [if_neg hnone, if_neg hcodec, if_neg hlength]
    exact ⟨fun h => ⟨by omega, hcodec, hlength, Except.ok.inj h⟩, fun h => congrArg _ h.2.2.2⟩

theorem completed_meaningful (h : t.completed = .ok m) : m.audio.Meaningful := by
  obtain ⟨⟨hsamples, hrate, hbytes⟩, hcodec, hlength, rfl⟩ := completed_eq_ok_iff.mp h
  refine ⟨hsamples, hrate, hbytes, Nat.pos_of_ne_zero hlength, ?_, rfl, ?_, ?_⟩
  · change t.audio.codec = .aac ∨ t.audio.codec = .aacHe ∨ t.audio.codec = .alac
    cases hc : t.audio.codec with
    | unknown => exact absurd hc hcodec
    | aac => exact .inl rfl
    | aacHe => exact .inr (.inl rfl)
    | alac => exact .inr (.inr rfl)
  · exact t.audio.milliseconds_eq hrate
  · exact t.audio.averageRate_eq

theorem completed_playable_iff (h : t.audio.Named) :
    t.completed = .ok m ↔ t.audio.Playable ∧ t.withDerived = m := by
  rw [completed_eq_ok_iff]
  constructor
  · rintro ⟨⟨hsamples, hrate, hbytes⟩, -, hlength, hm⟩
    exact ⟨⟨hsamples, hrate, hbytes, (t.audio.milliseconds_ne_zero_iff hrate).mp hlength⟩, hm⟩
  · rintro ⟨⟨hsamples, hrate, hbytes, hle⟩, hm⟩
    exact ⟨⟨hsamples, hrate, hbytes⟩, h (Nat.ne_of_gt hrate),
      (t.audio.milliseconds_ne_zero_iff hrate).mpr hle, hm⟩

/-- Whatever the stream, a record that is read is meaningful. A record is read just if the walk
succeeds and collects playable audio, and is then what the walk collected with the derived
numbers. -/
theorem read_ok_iff_playable {σ : Type} [ByteStream false σ] (o : Options) (size : Nat) (s : σ) :
    (∀ m, Track.read o size s = .ok m → m.audio.Meaningful) ∧
      ∀ m, Track.read o size s = .ok m ↔
        ∃ step c, ((Walk.walk o size).exec (.start o) s).1 = (.ok step, c) ∧
          c.track.audio.Playable ∧ c.track.withDerived = m := by
  have hnamed := Walk.named_walk o size s
  rw [Track.read_eq]
  generalize ((Walk.walk o size).exec (.start o) s).1 = run at hnamed ⊢
  obtain ⟨e | step, c⟩ := run
  · refine ⟨fun m h => ?_, fun m => ⟨fun h => ?_, fun h => ?_⟩⟩
    · cases h
    · cases h
    · obtain ⟨step, c, hwalk, -⟩ := h
      cases hwalk
  · refine ⟨fun m h => completed_meaningful h, fun m => ?_⟩
    refine (completed_playable_iff hnamed).trans ⟨?_, ?_⟩
    · exact fun h => ⟨step, c, rfl, h⟩
    · rintro ⟨step, c, hwalk, h⟩
      cases hwalk
      exact h

/-- One sample at 2000 in a second lasts for half a millisecond, which counts as one. -/
theorem read_ok_iff_playable_half :
    let o : Options := { arenaSize := 0 }
    let times := Bytes.ofNat 4 0 ++ Bytes.ofNat 4 1 ++ Bytes.ofNat 4 1 ++ Bytes.ofNat 4 1
    let entry := List.replicate 28 0 ++
      Atom.octets Kind.alacEntry.code (List.replicate 24 0 ++ Bytes.ofNat 4 2000)
    let file := Atom.octets Kind.timeToSample.code times ++
      Atom.octets Kind.alacEntry.code entry ++ Atom.octets Kind.mediaData.code [1, 2, 3, 4]
    ∃ m, Track.read o file.length (Slice.ofBytes file) = .ok m ∧ m.audio.Meaningful ∧
      m.audio.length = 1 ∧ m.audio.bitrate = 32 := by
  intro o times entry file
  have hwalk : ((Walk.walk o file.length).exec (.start o) (Slice.ofBytes file)).1 =
      (.ok .stop, { Collected.start o with
        track := { audio := { codec := .alac, sampleRate := 2000, samples := 1, bytes := 4 } } }) := by
    cbv
  obtain ⟨hmeaningful, hiff⟩ := read_ok_iff_playable o file.length (Slice.ofBytes file)
  have hread := (hiff _).mpr ⟨_, _, hwalk, ⟨by decide, by decide, by decide, by decide⟩, rfl⟩
  exact ⟨_, hread, hmeaningful _ hread, by decide, by decide⟩

end Track

end AudioAtoms

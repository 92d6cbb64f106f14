import AudioAtoms.Proofs.Execution
import AudioAtoms.ReadFile

/-!
# From the walk to the record

The record of a file is what the walk collected, completed. Completing needs no more octets: it is
a function of the collected record.
-/
namespace AudioAtoms

namespace Audio

/-- The audio with the numbers that follow from the others. -/
def withDerived (a : Audio) : Audio :=
  { a with length := a.milliseconds, bitrate := a.averageRate, variableRate := true }

/-- The audio with its length and bit rate, if it is that of a track. -/
def completed (a : Audio) : Except ReadError Audio :=
  if a.samples = 0 ∨ a.sampleRate = 0 ∨ a.bytes = 0 then .error .noAudioTrack
  else if a.codec = .unknown then .error .unknownCodec
  else if a.milliseconds = 0 then .error .invalidLength
  else .ok a.withDerived

end Audio

namespace Track
variable {t u : Track}

def withAudio (t : Track) (a : Audio) : Track := { t with audio := a }

def completed (t : Track) : Except ReadError Track := t.audio.completed.map t.withAudio

theorem completed_eq_error_iff {e : ReadError} :
    t.completed = .error e ↔ t.audio.completed = .error e := by
  rw [completed]
  cases t.audio.completed with
  | error e => simp [Except.map]
  | ok a => simp [Except.map]

theorem tags_completed (h : t.completed = .ok u) : u.tags = t.tags := by
  rw [completed] at h
  cases haudio : t.audio.completed with
  | error e =>
    rw [haudio] at h
    cases h
  | ok a =>
    rw [haudio] at h
    cases h
    rfl

end Track

theorem ReadFile.run_complete {σ : Type} [ByteStream false σ] (t : Track) (s : σ) :
    (ReadFile.complete t).run.run s = (t.completed, s) := by
  rw [ReadFile.complete, Track.completed, Audio.completed]
  by_cases haudio : t.audio.samples = 0 ∨ t.audio.sampleRate = 0 ∨ t.audio.bytes = 0
  · simp only [haudio, if_true]
    rfl
  · by_cases hcodec : t.audio.codec = .unknown
    · simp only [haudio, hcodec, if_true, if_false]
      rfl
    · by_cases hlength : t.audio.milliseconds = 0
      · simp only [haudio, hcodec, hlength, if_true, if_false]
        rfl
      · simp only [haudio, hcodec, hlength, if_false]
        rfl

theorem ReadFile.run_track (o : Options) (size : Nat) :
    (ReadFile.track o size).run =
      ((Walk.walk o size).runFrom (.start o)).bind fun r =>
        match r.1 with
        | .ok _ => (ReadFile.complete r.2.track).run
        | .error e => .done (.error e) := by
  rw [ReadFile.track, ExceptT.run_bind]
  simp only [ExceptT.run_lift, Scan.bind_eq, Functor.map, Scan.bind_assoc]
  rfl

/-- The record of a file is what the walk collected, completed, or the error of the walk. -/
theorem Track.read_eq {σ : Type} [ByteStream false σ] (o : Options) (size : Nat) (s : σ) :
    Track.read o size s =
      match ((Walk.walk o size).exec (.start o) s).1 with
      | (.ok _, c) => c.track.completed
      | (.error e, _) => .error e := by
  rw [Track.read, ReadFile.run_track, Scan.run_bind]
  rcases hw : ((Walk.walk o size).runFrom (.start o)).run s with ⟨⟨_ | _, c⟩, t⟩
  · rw [Collect.exec, hw]
    rfl
  · rw [Collect.exec, hw]
    simp only [ReadFile.run_complete]

end AudioAtoms

import AudioAtoms.Proofs.Recording
import AudioAtoms.Proofs.Statements

/-!
# Files with several tracks

All tracks of a file write into one record. A sample entry sets the codec and the sample rate, a
table of durations sets the number of samples, each over whatever an earlier track has said. So the
record may have its codec from one track and its samples from another. One track describes the file
if it is the last one to state something and does so by itself.
-/
namespace AudioAtoms

namespace Forest

def append : Forest → Forest → Forest
  | nil, g => g
  | leaf code payload next, g => leaf code payload (next.append g)
  | tagList tags next, g => tagList tags (next.append g)
  | container kind fixed inner next, g => container kind fixed inner (next.append g)

/-- The handler for the siblings behind a row. -/
def handlerBehind : Forest → Option Handler → Option Handler
  | nil, handler => handler
  | leaf code payload next, handler =>
    next.handlerBehind
      (if Kind.ofCode code = .handler then Content.handler? payload else handler)
  | tagList _ next, handler | container _ _ _ next, handler => next.handlerBehind handler

def trackRow : List Forest → Forest → Forest
  | [], rest => rest
  | track :: tracks, rest => container .track (.replicate _ 0) track (trackRow tracks rest)

theorem octets_append (f g : Forest) : (f.append g).octets = f.octets ++ g.octets := by
  induction f with
  | nil => rfl
  | leaf code payload next ih => rw [append, octets, octets, ih, List.append_assoc]
  | tagList tags next ih => rw [append, octets, octets, ih, List.append_assoc]
  | container kind fixed inner next _ ih => rw [append, octets, octets, ih, List.append_assoc]

theorem wellSized_append (f g : Forest) :
    (f.append g).WellSized ↔ f.WellSized ∧ g.WellSized := by
  induction f with
  | nil => exact (and_iff_right trivial).symm
  | leaf code payload next ih => rw [append, WellSized, WellSized, ih, and_assoc]
  | tagList tags next ih => rw [append, WellSized, WellSized, ih, and_assoc]
  | container kind fixed inner next _ ih =>
    rw [append, WellSized, WellSized, ih, and_assoc, and_assoc]

theorem statements_append (f g : Forest) (levels : Nat) (handler : Option Handler) :
    (f.append g).statements levels handler =
      f.statements levels handler ++ g.statements levels (f.handlerBehind handler) := by
  induction f generalizing handler with
  | nil => rfl
  | leaf code payload next ih =>
    rw [append, statements, statements, handlerBehind]
    split
    · rw [ih, if_pos ‹_›]
    · rw [ih, if_neg ‹_›, List.append_assoc]
  | tagList tags next ih => exact ih handler
  | container kind fixed inner next _ ih =>
    rw [append, statements, statements, handlerBehind, ih]
    split
    · rfl
    split
    · rfl
    · rw [List.append_assoc]

/-- What is in a container that is entered is stated before what stands behind it. -/
theorem statements_container {kind : Container} (hk : kind ≠ .mediaInfo)
    (fixed : Vector UInt8 kind.fixedSize) (inner next : Forest) (levels : Nat)
    (handler : Option Handler) :
    (container kind fixed inner next).statements (levels + 1) handler =
      inner.statements levels none ++ next.statements (levels + 1) handler := by
  rw [statements, if_neg fun h => hk h.1, if_neg (Nat.succ_ne_zero levels), Nat.add_sub_cancel]

theorem statements_trackRow (tracks : List Forest) (rest : Forest) (levels : Nat)
    (handler : Option Handler) :
    (trackRow tracks rest).statements (levels + 1) handler =
      (tracks.flatMap fun track => track.statements levels none) ++
        rest.statements (levels + 1) handler := by
  induction tracks with
  | nil => rfl
  | cons track tracks ih =>
    rw [List.flatMap_cons, List.append_assoc, ← ih]
    exact statements_container (by decide : Container.track ≠ .mediaInfo) _ _ _ _ _

theorem length_trackRow_cons (track : Forest) (tracks : List Forest) (rest : Forest) :
    (trackRow (track :: tracks) rest).octets.length =
      Header.minSize + track.octets.length + (trackRow tracks rest).octets.length := by
  have hoctets : (trackRow (track :: tracks) rest).octets =
      Atom.octets Kind.track.code track.octets ++ (trackRow tracks rest).octets := rfl
  rw [hoctets, List.length_append, Atom.length_octets]

/-- Without its tracks a row is well-sized, and no longer than before. -/
theorem wellSized_behind_tracks {tracks : List Forest} {rest : Forest}
    (h : (trackRow tracks rest).WellSized) :
    rest.WellSized ∧ rest.octets.length ≤ (trackRow tracks rest).octets.length := by
  induction tracks with
  | nil => exact ⟨h, Nat.le_refl _⟩
  | cons track tracks ih =>
    obtain ⟨hrest, hle⟩ := ih h.2.2
    rw [length_trackRow_cons]
    exact ⟨hrest, by omega⟩

/-- The same holds with one of its tracks only. -/
theorem wellSized_single_track {earlier later : List Forest} {track rest : Forest}
    (h : (trackRow (earlier ++ track :: later) rest).WellSized) :
    (trackRow [track] rest).WellSized ∧
      (trackRow [track] rest).octets.length ≤
        (trackRow (earlier ++ track :: later) rest).octets.length := by
  induction earlier with
  | nil =>
    obtain ⟨hfit, htrack, hlater⟩ := h
    obtain ⟨hrest, hle⟩ := wellSized_behind_tracks hlater
    rw [List.nil_append, length_trackRow_cons, length_trackRow_cons]
    exact ⟨⟨hfit, htrack, hrest⟩, Nat.add_le_add_left hle _⟩
  | cons first earlier ih =>
    obtain ⟨hsingle, hle⟩ := ih h.2.2
    rw [List.cons_append, length_trackRow_cons first]
    exact ⟨hsingle, by omega⟩

end Forest

/-- What stands around the tracks of a file: before its movie, in the movie before and behind the
tracks, and behind the movie. -/
structure FileFrame where
  before : Forest
  head : Forest
  tail : Forest
  after : Forest

namespace FileFrame
variable (frame : FileFrame)

def file (tracks : List Forest) : Forest :=
  frame.before.append
    (.container .movie (.replicate _ 0) (frame.head.append (.trackRow tracks frame.tail))
      frame.after)

def opening : List Statement :=
  frame.before.statements (Walk.maxDepth - 1) none ++
    frame.head.statements (Walk.maxDepth - 2) none

def closing : List Statement :=
  frame.tail.statements (Walk.maxDepth - 2) (frame.head.handlerBehind none) ++
    frame.after.statements (Walk.maxDepth - 1) (frame.before.handlerBehind none)

end FileFrame

def Forest.trackStatements (track : Forest) : List Statement :=
  track.statements (Walk.maxDepth - 3) none

namespace FileFrame

theorem statements_file (frame : FileFrame) (tracks : List Forest) :
    (frame.file tracks).statements (Walk.maxDepth - 1) none =
      frame.opening ++ tracks.flatMap Forest.trackStatements ++ frame.closing := by
  have hmovie : (Forest.container .movie (.replicate _ 0)
      (frame.head.append (.trackRow tracks frame.tail)) frame.after).statements
        (Walk.maxDepth - 1) (frame.before.handlerBehind none) =
      (frame.head.append (.trackRow tracks frame.tail)).statements (Walk.maxDepth - 2) none ++
        frame.after.statements (Walk.maxDepth - 1) (frame.before.handlerBehind none) :=
    Forest.statements_container (by decide : Container.movie ≠ .mediaInfo) _ _ _ _ _
  have htracks : (Forest.trackRow tracks frame.tail).statements (Walk.maxDepth - 2)
        (frame.head.handlerBehind none) =
      tracks.flatMap Forest.trackStatements ++
        frame.tail.statements (Walk.maxDepth - 2) (frame.head.handlerBehind none) :=
    Forest.statements_trackRow tracks frame.tail (Walk.maxDepth - 3) _
  rw [file, Forest.statements_append, hmovie, Forest.statements_append, htracks, opening, closing]
  simp only [List.append_assoc]

/-- The record of a file is that of all its tracks in a row, each over those before. -/
theorem untrimmed_file (o : Options) (frame : FileFrame) (tracks : List Forest)
    (hsize : (frame.file tracks).WellSized) :
    ((Track.ofBytes o (frame.file tracks).octets).map fun m => m.audio.untrimmed) =
      Statement.record o
        (frame.opening ++ tracks.flatMap Forest.trackStatements ++ frame.closing) := by
  rw [Track.untrimmed_ofBytes o _ hsize, statements_file]

theorem wellSized_single {frame : FileFrame} {earlier later : List Forest} {track : Forest}
    (h : (frame.file (earlier ++ track :: later)).WellSized) : (frame.file [track]).WellSized := by
  obtain ⟨hbefore, hfit, hmovie, hafter⟩ := (Forest.wellSized_append _ _).mp h
  obtain ⟨hhead, hrow⟩ := (Forest.wellSized_append _ _).mp hmovie
  obtain ⟨hsingle, hle⟩ := Forest.wellSized_single_track hrow
  refine (Forest.wellSized_append _ _).mpr ⟨hbefore, ?_, ?_, hafter⟩
  · rw [Forest.octets_append, List.length_append, List.length_append] at hfit ⊢
    omega
  · exact (Forest.wellSized_append _ _).mpr ⟨hhead, hsingle⟩

end FileFrame

namespace Track

/-- The record of a file is that of all its tracks in a row, each over those before. The last track
that states something describes the file alone if it does so by itself and no track has audio data
in it. -/
theorem ofBytes_tracks (o : Options) (frame : FileFrame) (tracks : List Forest)
    (hsize : (frame.file tracks).WellSized) :
    ((Track.ofBytes o (frame.file tracks).octets).map fun m => m.audio.untrimmed) =
        Statement.record o
          (frame.opening ++ tracks.flatMap Forest.trackStatements ++ frame.closing) ∧
      ∀ earlier track later, tracks = earlier ++ track :: later →
        (∀ t ∈ later, t.trackStatements = []) →
        (∀ t ∈ tracks, ∀ size, .data size ∉ t.trackStatements) →
        Statement.SelfContained o track.trackStatements →
        ∀ m, Track.ofBytes o (frame.file tracks).octets = .ok m →
          ∃ m', Track.ofBytes o (frame.file [track]).octets = .ok m' ∧
            m'.audio.untrimmed = m.audio.untrimmed := by
  have hall := frame.untrimmed_file o tracks hsize
  refine ⟨hall, ?_⟩
  rintro earlier track later rfl hlater hdata hself m hm
  have hsilent : later.flatMap Forest.trackStatements = [] := List.flatMap_eq_nil_iff.mpr hlater
  have hsingle := frame.untrimmed_file o [track] (FileFrame.wellSized_single hsize)
  rw [hm, List.flatMap_append, List.flatMap_cons, hsilent, List.append_nil] at hall
  have hdataless (size : Nat) :
      .data size ∉ earlier.flatMap Forest.trackStatements ++ track.trackStatements := by
    rw [List.mem_append, List.mem_flatMap]
    rintro (⟨t, ht, hmem⟩ | hmem)
    · exact hdata t (List.mem_append_left _ ht) size hmem
    · exact hdata track (List.mem_append_right _ List.mem_cons_self) size hmem
  have hlast := Statement.record_last hdataless hself hall.symm
  rw [List.flatMap_singleton, hlast] at hsingle
  cases hread : Track.ofBytes o (frame.file [track]).octets with
  | error e =>
    rw [hread] at hsingle
    cases hsingle
  | ok m' =>
    rw [hread] at hsingle
    exact ⟨m', rfl, Except.ok.inj hsingle⟩

def soundTrack (code : LeafCode) (entry : Bytes) (count delta : Nat) : Forest :=
  .container .media (.replicate _ 0)
    (.soundMedia code entry
      (Bytes.ofNat 4 0 ++ Bytes.ofNat 4 1 ++ Bytes.ofNat 4 count ++ Bytes.ofNat 4 delta)) .nil

def losslessTrack (rate count delta : Nat) : Forest :=
  soundTrack .alacEntry
    (List.replicate 28 0 ++
      Atom.octets Kind.alacEntry.code (List.replicate 24 0 ++ Bytes.ofNat 4 rate)) count delta

def plainFrame : FileFrame where
  before := .nil
  head := .nil
  tail := .nil
  after := .leaf .mediaData [1, 2, 3, 4] .nil

def unknownTrack (count delta : Nat) : Forest :=
  soundTrack ⟨.ofChars 'a' 'c' '-' '3', by decide⟩ [] count delta

set_option maxRecDepth 8192 in
/-- A lossless track behind one of an unknown codec describes the file. -/
theorem ofBytes_tracks_lossless :
    let o : Options := { arenaSize := 0 }
    let tracks := [unknownTrack 500 1536, losslessTrack 48000 1000 1024]
    ∃ m m', Track.ofBytes o (plainFrame.file tracks).octets = .ok m ∧
      Track.ofBytes o (plainFrame.file [losslessTrack 48000 1000 1024]).octets = .ok m' ∧
      m'.audio.untrimmed = m.audio.untrimmed ∧ m.audio.samples = 1024000 := by
  intro o tracks
  let m : Track :=
    { audio :=
        { codec := .alac, sampleRate := 48000, samples := 1024000, bytes := 4, length := 21333,
          variableRate := true } }
  have hread : Track.ofBytes o (plainFrame.file tracks).octets = .ok m := by cbv
  have hsize : (plainFrame.file tracks).WellSized := by decide +kernel
  have hunknown : (unknownTrack 500 1536).trackStatements = [.table [⟨500, 1536⟩]] := by
    decide +kernel
  have hlossless : (losslessTrack 48000 1000 1024).trackStatements =
      [.lossless 48000, .table [⟨1000, 1024⟩]] := by decide +kernel
  have hdata : ∀ t ∈ tracks, ∀ size, .data size ∉ t.trackStatements := by
    intro t ht size
    simp only [tracks, List.mem_cons, List.not_mem_nil, or_false] at ht
    rcases ht with rfl | rfl
    · simp [hunknown]
    · simp [hlossless]
  have hself : Statement.SelfContained o (losslessTrack 48000 1000 1024).trackStatements :=
    ⟨[], .lossless 48000, [], [⟨1000, 1024⟩], [], hlossless, trivial⟩
  obtain ⟨m', hsingle, haudio⟩ := (ofBytes_tracks o plainFrame tracks hsize).2
    [unknownTrack 500 1536] _ [] rfl (by simp) hdata hself m hread
  exact ⟨m, m', hread, hsingle, haudio, rfl⟩

set_option maxRecDepth 8192 in
/-- In the other order the record has the codec of the one and the sample table of the other, as
neither of them has alone. -/
theorem ofBytes_mixes_tracks :
    let o : Options := { arenaSize := 0 }
    let tracks := [losslessTrack 48000 1000 1024, unknownTrack 500 1536]
    (plainFrame.file tracks).WellSized ∧
      ∃ m, Track.ofBytes o (plainFrame.file tracks).octets = .ok m ∧
        ∀ track ∈ tracks, ∀ m',
          Track.ofBytes o (plainFrame.file [track]).octets = .ok m' →
            m'.audio.samples ≠ m.audio.samples := by
  intro o tracks
  have hboth : Track.ofBytes o (plainFrame.file tracks).octets =
      .ok { audio :=
              { codec := .alac, sampleRate := 48000, samples := 768000, bytes := 4,
                length := 16000, variableRate := true } } := by cbv
  have hlossless : Track.ofBytes o (plainFrame.file [losslessTrack 48000 1000 1024]).octets =
      .ok { audio :=
              { codec := .alac, sampleRate := 48000, samples := 1024000, bytes := 4,
                length := 21333, variableRate := true } } := by cbv
  have hunknown : Track.ofBytes o (plainFrame.file [unknownTrack 500 1536]).octets =
      .error .noAudioTrack := by cbv
  refine ⟨by decide +kernel, _, hboth, fun track htrack m' hm' => ?_⟩
  simp only [tracks, List.mem_cons, List.not_mem_nil, or_false] at htrack
  rcases htrack with rfl | rfl
  · cases hlossless.symm.trans hm'
    decide
  · cases hunknown.symm.trans hm'

end Track

end AudioAtoms

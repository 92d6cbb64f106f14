import AudioAtoms.Proofs.Artwork
import AudioAtoms.Proofs.Buffering
import AudioAtoms.Proofs.Sufficiency

/-!
# Files behind other octets

A file may start anywhere in its source. The octets before it move its cover image and change
nothing else: the record is that of the file alone, with the position of the image moved. Octets in
memory and octets of a source answer differently only when too many are asked for, and a file with
true sizes never asks for too many.
-/
namespace AudioAtoms

namespace Tape

/-- The slice is what is ahead on the tape, and all of it can be skipped. -/
structure Shows (t : Tape) (s : Slice) : Prop where
  pos : s.pos = t.pos
  rest : s.rest = t.content.drop t.pos
  pos_le : t.pos ≤ t.content.length
  length_le : t.content.length ≤ t.lastPos
  length_lt : t.content.length < 2 ^ 63

theorem Shows.length_rest {t : Tape} {s : Slice} (h : t.Shows s) :
    s.rest.length = t.content.length - t.pos := by
  rw [h.rest, List.length_drop]

theorem Shows.advance {t : Tape} {s : Slice} (h : t.Shows s) {n : Nat} (hn : n ≤ s.rest.length) :
    (t.advance n).Shows (s.advance n) := by
  have hlen := h.length_rest
  have hpos := h.pos_le
  refine ⟨?_, ?_, ?_, h.length_le, h.length_lt⟩
  · rw [Slice.advance, Tape.advance, h.pos]
  · rw [Slice.advance, Tape.advance, h.rest, List.drop_drop]
  · simp only [Tape.advance]
    omega

/-- A request for octets that are there is answered alike. -/
theorem Shows.answer {t : Tape} {s : Slice} (h : t.Shows s) (q : Request false)
    (hq : q.need ≤ s.rest.length) :
    (ByteStream.answer q t).1 = (ByteStream.answer q s).1 ∧
      (ByteStream.answer q t).2.Shows (ByteStream.answer q s).2 := by
  have hahead (n : Nat) : t.ahead n = s.rest.take n := by rw [ahead, h.rest]
  cases q with
  | exactly n =>
    have hn : n ≤ s.rest.length := hq
    have hlen : (s.rest.take n).length = n := by
      rw [List.length_take]
      omega
    rw [Slice.answer_exactly, if_pos hn]
    simp only [ByteStream.answer, Tape.answer, hahead, hlen, Nat.lt_irrefl, if_false]
    exact ⟨trivial, h.advance hn⟩
  | upTo n =>
    rw [Slice.answer_upTo]
    simp only [ByteStream.answer, Tape.answer, hahead, List.length_take]
    exact ⟨trivial, h.advance (Nat.min_le_right _ _)⟩
  | skip n =>
    have hn : n ≤ s.rest.length := hq
    have hlen := h.length_rest
    have hlast := h.length_le
    have hword := h.length_lt
    have hpos := h.pos_le
    rw [Slice.answer_skip, if_pos hn]
    simp only [ByteStream.answer, Tape.answer]
    rw [if_neg (by omega), if_neg (by omega)]
    exact ⟨rfl, h.advance hn⟩
  | position => exact ⟨h.pos.symm, h⟩
  | remaining hb => cases hb

end Tape

/-- A run that finds all its octets in a slice gives the same on a tape that shows the slice. -/
theorem Scan.Enough.run_tape {α : Type} {p : Scan false α} {s : Slice} {t : Tape} (h : p.Enough s)
    (hshows : t.Shows s) : (p.run t).1 = (p.run s).1 := by
  induction p generalizing s t with
  | done a => rfl
  | ask q next ih =>
    obtain ⟨hanswer, hnext⟩ := hshows.answer q h.1
    rw [run_ask, run_ask, hanswer]
    exact ih _ h.2 hnext
  | note m rest ih => exact ih h hshows

section Shift

def Artwork.shift (n : Nat) (a : Artwork) : Artwork := { a with pos := a.pos + n }

/-- The record with the cover image further back in the file. -/
def Track.shift (n : Nat) : Track → Track := .mapArtwork (.shift n)

theorem Artwork.moves_shift (n start : Nat) : Artwork.Moves (.shift n) start n := fun _ _ => rfl

end Shift

theorem Source.shows_ofContent (front file : Bytes) (schedule : Schedule)
    (hsize : front.length + file.length < 2 ^ 63) :
    (ofContent (front ++ file).toArray front.length schedule).tape.Shows
      (Slice.mk front.length file) := by
  have hlen : (front ++ file).length = front.length + file.length := List.length_append
  refine ⟨rfl, List.drop_left.symm, ?_, ?_, ?_⟩
  all_goals
    simp only [tape, ofContent]
    omega

namespace Walk

/-- A walk over a file that starts at some position collects the same, with the cover moved. -/
theorem exec_slice_shift (o : Options) (f : Forest) (hf : f.WellSized) (n : Nat) :
    let run := (walk o f.octets.length).exec (.start o) (Slice.ofBytes f.octets)
    ((walk o f.octets.length).exec (.start o) (Slice.mk n f.octets)).1 =
      (run.1.1, run.1.2.mapArtwork (.shift n)) := by
  have hat (pos : Nat) := (follows o f hf (maxDepth - 1) none pos (.start o) [] rfl).outcome
  simp only [List.append_nil] at hat
  have hvisit := f.visit_mapArtwork o (maxDepth - 1) none (.start o) (Artwork.moves_shift n 0)
  have hstart : (Collected.start o).mapArtwork (.shift n) = .start o := rfl
  rw [hstart, Nat.zero_add, ← hat, ← hat] at hvisit
  exact hvisit

theorem exec_tape_shift (o : Options) (f : Forest) (hf : f.WellSized) {t : Tape} {n : Nat}
    (ht : t.Shows ⟨n, f.octets⟩) :
    let run := (walk o f.octets.length).exec (.start o) (Slice.ofBytes f.octets)
    ((walk o f.octets.length).exec (.start o) t).1 =
      (run.1.1, run.1.2.mapArtwork (.shift n)) :=
  ((enough_walk o f hf n).run_tape ht).trans (exec_slice_shift o f hf n)

end Walk

namespace Track

/-- The octets before a file move its cover image and change nothing else: the file in a source,
read ahead by however many octets, has the record of the file alone in memory. Memory holds fewer
than `2 ^ 63` octets. -/
theorem ofSource_shift (o : Options) (f : Forest) (hf : f.WellSized) (front : Bytes)
    (hsize : front.length + f.octets.length < 2 ^ 63) {schedule : Schedule}
    (hs : schedule.Reliable) {capacity : Nat} (h : 0 < capacity) :
    Track.ofSource o (.ofContent (front ++ f.octets).toArray front.length schedule) capacity h =
      (Track.ofBytes o f.octets).map (.shift front.length) := by
  have hlen : (front ++ f.octets).toArray.size = front.length + f.octets.length := by simp
  have hreliable := Source.reliable_ofContent (by omega : (front ++ f.octets).toArray.size < 2 ^ 64)
    (by omega : front.length < 2 ^ 64) hs
  have hlength : (Source.ofContent (front ++ f.octets).toArray front.length schedule).length? =
      some (front.length + f.octets.length) := by
    rw [← hlen]
    rfl
  have hpos : (Source.ofContent (front ++ f.octets).toArray front.length schedule).pos =
      front.length := rfl
  have hrun := Walk.exec_tape_shift o f hf (Source.shows_ofContent front f.octets schedule hsize)
  rw [ofSource_eq_read hreliable, hlength, hpos]
  simp only [Nat.add_sub_cancel_left]
  rw [read_eq, ofBytes, read_eq, hrun]
  rcases (Walk.walk o f.octets.length).exec (.start o) (Slice.ofBytes f.octets)
    with ⟨⟨_ | _, c⟩, t⟩
  · rfl
  · exact c.track.completed_mapArtwork

set_option maxRecDepth 2048 in
/-- A file with a cover image behind three octets. -/
theorem ofSource_shift_cover :
    let o : Options := { arenaSize := 0 }
    let cover : TagAtom := ⟨Kind.cover.code, List.replicate 16 0 ++ [0xff, 0xd8, 0xff, 0xe0, 1]⟩
    let handler : Bytes := List.replicate 8 0 ++ (Code.ofChars 'm' 'd' 'i' 'r').toBytes
    let times := Bytes.ofNat 4 0 ++ Bytes.ofNat 4 1 ++ Bytes.ofNat 4 1000 ++ Bytes.ofNat 4 1024
    let entry := List.replicate 28 0 ++
      Atom.octets Kind.alacEntry.code (List.replicate 24 0 ++ Bytes.ofNat 4 48000)
    let file : Forest :=
      .leaf ⟨Kind.timeToSample.code, by decide⟩ times
        (.leaf ⟨Kind.alacEntry.code, by decide⟩ entry
          (.container .metadata #v[0, 0, 0, 0]
            (.leaf ⟨Kind.handler.code, by decide⟩ handler (.tagList [cover] .nil))
            (.leaf ⟨Kind.mediaData.code, by decide⟩ [1, 2, 3] .nil)))
    let m : Track :=
      { audio :=
          { codec := .alac, sampleRate := 48000, samples := 1024000, bytes := 3,
            length := 21333, variableRate := true }
        tags := { artwork := some ⟨.jpeg, 160, 5⟩ } }
    file.WellSized ∧
      Track.ofBytes o file.octets = .ok m ∧
      Track.ofSource o (.ofContent ([7, 7, 7] ++ file.octets).toArray 3 .steady) 2 (by decide) =
        .ok { m with tags := { artwork := some ⟨.jpeg, 163, 5⟩ } } := by
  intro o cover handler times entry file m
  have hfile : file.WellSized := by decide
  have hsize : ([7, 7, 7] : Bytes).length + file.octets.length < 2 ^ 63 := by cbv
  have hread : Track.ofBytes o file.octets = .ok m := by cbv
  refine ⟨hfile, hread, ?_⟩
  have hsource := ofSource_shift o file hfile [7, 7, 7] hsize Schedule.reliable_steady
    (by decide : 0 < 2)
  rw [hread] at hsource
  exact hsource

end Track

end AudioAtoms

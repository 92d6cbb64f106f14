import AudioAtoms.Proofs.Steps
import AudioAtoms.Stream.Buffered

/-!
# Going on behind what cannot be read

An atom may say anything about the sizes inside it. A leaf is passed as a whole nevertheless: what
it claims is kept inside the window of its payload, so what follows it is read where it starts. A
tag may fail at any of its requests, the stream behind its window may fail too, and then nothing of
it is kept: all that a tag has to ask for comes before anything that it sets.
-/
namespace AudioAtoms

/-- The leaves that are read for the record. -/
inductive LeafAtom where
  | handler | timeToSample | aacEntry | alacEntry | chapterList | fileType
deriving DecidableEq, Repr

namespace LeafAtom

abbrev Value : LeafAtom → Type
  | handler => Handler
  | timeToSample => List SampleRun
  | aacEntry => Option ElementaryStream
  | alacEntry => Option Nat
  | chapterList => Option Nat
  | fileType => Code

def payload : (a : LeafAtom) → Nat → Read true a.Value
  | handler, _ => Leaf.handler
  | timeToSample, dataSize => SampleRun.readTable dataSize
  | aacEntry, dataSize => SampleEntry.aac dataSize
  | alacEntry, dataSize => SampleEntry.alac dataSize
  | chapterList, _ => Leaf.firstChapter
  | fileType, _ => Leaf.brand

theorem watchful_payload (a : LeafAtom) (dataSize : Nat) : (a.payload dataSize).Watchful := by
  cases a with
  | handler => exact Leaf.strict_handler.watchful
  | timeToSample => exact (SampleRun.strict_readTable dataSize).watchful
  | aacEntry => exact SampleEntry.watchful_aac dataSize
  | alacEntry => exact (SampleEntry.strict_alac dataSize).watchful
  | chapterList => exact Leaf.strict_firstChapter.watchful
  | fileType => exact Leaf.strict_brand.watchful

/-- A leaf whose payload is there is read without an error and passed as a whole, whatever its
payload says. What comes of it is what its reader makes of the payload alone, and nothing if that
reader fails. -/
theorem exec_read_advance (a : LeafAtom) (h : Header) (s : Slice)
    (hs : h.dataSize ≤ s.rest.length) :
    (Leaf.read h (a.payload h.dataSize) : Read false (Option a.Value)).exec s =
      (.ok ((a.payload h.dataSize).result (.ofBytes s.pos (s.rest.take h.dataSize))),
        s.advance h.dataSize) := by
  have hlen : (s.rest.take h.dataSize).length = h.dataSize := List.length_take_of_le hs
  have hread := Leaf.exec_read_result (a.watchful_payload h.dataSize) h s.pos
    (s.rest.take h.dataSize) (s.rest.drop h.dataSize) hlen.symm
  rwa [List.take_append_drop, hlen] at hread

/-- An AAC entry with a configuration atom of a wide size, of which only the first half is there.
The entry is given up, and the reader stands before the octet behind it. -/
theorem exec_read_advance_wide :
    let h : Header := ⟨.aacEntry, false, 40⟩
    let entry : Bytes := List.replicate 28 0 ++ [0, 0, 0, 1] ++
      Kind.elementaryStream.code.toBytes ++ [0, 0, 0, 0]
    let s := Slice.mk 8 (entry ++ [7])
    h.dataSize ≤ s.rest.length ∧
      (Leaf.read h (aacEntry.payload h.dataSize) : Read false (Option aacEntry.Value)).exec s =
        (.ok none, ⟨48, [7]⟩) := by
  intro h entry s
  have hs : h.dataSize ≤ s.rest.length := by decide
  refine ⟨hs, (exec_read_advance aacEntry h s hs).trans ?_⟩
  simp only [h, s, entry]
  cbv

end LeafAtom

namespace ReadTag

/-- A tag that cannot be read leaves no trace: whatever its kind, whatever was collected before and
whatever stands behind its window, also a source that fails or ends at any request, the record is
what it was and no more of the arena is used. -/
theorem unchanged_of_error {σ : Type} [ByteStream false σ] (o : Options) (kind : Kind)
    (c : Collected) (s : Scoped σ) {e : StreamError}
    (h : ((read o kind).exec c s).1.1 = .error e) :
    let d := ((read o kind).exec c s).1.2
    d.track = c.track ∧ d.arena.used = c.arena.used := by
  intro d
  have hafter := after_read o c s kind
  rcases hr : ((read o kind).exec c s).1 with ⟨_ | _, d'⟩
  · rw [hr] at hafter
    have hd : d = c := (congrArg Prod.snd hr).trans hafter
    rw [hd]
    exact ⟨rfl, rfl⟩
  · rw [hr] at h
    cases h

/-- A date of which two octets come before the source fails. The year that stands in the record
stays, although every date that is read sets it anew. -/
theorem unchanged_of_error_date :
    let tag : Bytes := List.replicate 16 0 ++ [0x31, 0x39, 0x39, 0x39]
    let source := Source.ofContent tag.toArray 0 (.periodic 0 (by decide) none (some 2))
    let s : Scoped Buffered := .ofSize (.ofSource source 2 (by decide)) tag.length
    let c : Collected :=
      { track := { tags := { title := some "A", year := some 2000 } }
        arena := ⟨[0x41, 0], List.replicate 14 0⟩ }
    let r := ((read {} .date).exec c s).1
    r.1 = .error .sourceFailure ∧ r.2.track.tags.year = some 2000 ∧ r.2.arena.used = 2 := by
  intro tag source s c r
  have herror : ((read {} .date).exec c s).1.1 = .error .sourceFailure := by
    simp only [s, source, c, tag]
    cbv
  obtain ⟨htrack, hused⟩ := unchanged_of_error {} .date c s herror
  simp only [r, herror, htrack, hused]
  exact ⟨trivial, rfl, rfl⟩

end ReadTag

end AudioAtoms

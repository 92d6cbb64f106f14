import AudioAtoms.Atom.Header
import AudioAtoms.Collect
import AudioAtoms.Stream.Window
import AudioAtoms.Tag.Date
import AudioAtoms.Tag.Freeform
import AudioAtoms.Tag.Genre

/-!
# The tag list

A tag list is a row of tag atoms. Each tag is read inside a window of its size; a tag that ends too
early is passed over. The first value for a field counts.
-/
namespace AudioAtoms

namespace TagValue

def offset : Nat := 16

/-- Reads the value of a tag, up to a limit. A value that is cut off by the end of the file counts
as none. -/
def read (most : Nat) : Read true Bytes := do
  if (← Read.remaining) < offset then return []
  Read.skip offset
  let size := min (← Read.remaining) most
  let bs ← Read.upTo size
  return if bs.length = size then bs else []

end TagValue

abbrev ReadTag := Collect StreamError true

namespace ReadTag

def valueIntoArena : ReadTag Bytes := do
  let bs ← Collect.read (TagValue.read (← get).arena.room)
  Collect.modifyArena (·.write bs)
  return bs

def text (o : Options) (field : TextField) : ReadTag Unit := do
  let bs ← valueIntoArena
  if bs ≠ [] ∧ ((← Collect.getTags).text field).isNone then
    let value ← Collect.keep ((← get).arena.commit bs.length o.maxValueSize)
    Collect.modifyTags (·.setText value field)

def date (o : Options) : ReadTag Unit := do
  text o .date
  Collect.modifyTags fun t => { t with year := t.date.bind Date.year? }

def genre : ReadTag Unit := do
  let bs ← Collect.read (TagValue.read 2)
  if bs.length = 2 ∧ (← Collect.getTags).genre.isNone then
    Collect.modifyTags fun t => { t with genre := Genre.nameFromOne? (Bytes.toNat bs) }

def numbering (field : NumberField) : ReadTag Unit := do
  let bs ← Collect.read (TagValue.read 6)
  if bs.length = 6 ∧ ((← Collect.getTags).numbering field).number.isNone then
    let m := Bytes.toNat ((bs.drop 2).take 2)
    let n := Bytes.toNat (bs.drop 4)
    Collect.modifyTags fun t => t.setNumbering { t.numbering field with number := some m } field
    if 0 < n then
      let value ← Collect.keep ((← get).arena.alloc s!"{m}/{n}")
      Collect.modifyTags fun t => t.setNumbering { t.numbering field with text := value } field

def jpegSignature : Bytes := [0xff, 0xd8, 0xff, 0xe0]

def pngSignature : Bytes := [0x89, 0x50, 0x4e, 0x47, 0x0d, 0x0a, 0x1a, 0x0a]

def imageType? (bs : Bytes) : Option ImageType :=
  if jpegSignature.isPrefixOf bs then some .jpeg
  else if pngSignature.isPrefixOf bs then some .png
  else none

/-- The cover image, if there is none yet. Its octets are not read beyond the signature. -/
def cover : ReadTag Unit := do
  if (← Collect.getTags).artwork.isNone then
    let pos ← Collect.read Read.position
    let size ← Collect.read Read.remaining
    let bs ← Collect.read (TagValue.read 8)
    if let some type := imageType? bs then
      Collect.modifyTags fun t =>
        { t with artwork := some ⟨type, pos + TagValue.offset, size - TagValue.offset⟩ }

def maxNameSize : Nat := 31

def name : Read true String := do
  let meanSize ← Read.number 4
  Read.skip (min (meanSize - 4) (← Read.remaining))
  let nameSize ← Read.number 4
  Read.skip 8
  let size := min (nameSize - 12) (← Read.remaining)
  let seen := min size maxNameSize
  let bs ← Read.upTo seen
  Read.skip (size - seen)
  return if bs.length = seen then Text.decode (Bytes.untilNul bs) else ""

def maxGaplessSize : Nat := 127

def gapless : ReadTag Unit := do
  let bs ← Collect.read (TagValue.read maxGaplessSize)
  let value := Text.decode (Bytes.untilNul bs)
  let lead := Freeform.gaplessField value 1
  let tail := Freeform.gaplessField value 2
  Collect.modifyAudio fun a => { a with leadTrim := lead, tailTrim := tail }
  Collect.note (.gapless lead tail)

/-- A value that may tell a gain. It is looked at in the spare part of the arena and not kept. -/
def gain (o : Options) (key : String) : ReadTag Unit := do
  let bs ← valueIntoArena
  if let some value := (← get).arena.peek bs.length o.maxValueSize then
    let outcome := (← Collect.getTags).gain.offer key value
    Collect.modifyTags fun t => { t with gain := outcome.gain t.gain }
    Collect.noteIfAny (outcome.notice? key value)

def freeform (o : Options) : ReadTag Unit := do
  let key ← Collect.read name
  match Freeform.key? key with
  | some .composer => text o .composer
  | some .gapless => gapless
  | some .musicBrainzTrack => text o .musicBrainzTrack
  | some .albumArtist => text o .albumArtist
  | none => gain o key

/-- Reads the payload of a tag. Atoms that are no tags have no effect. -/
def read (o : Options) : Kind → ReadTag Unit
  | .title => text o .title
  | .artist => text o .artist
  | .albumArtist => text o .albumArtist
  | .grouping => text o .grouping
  | .album => text o .album
  | .composer => text o .composer
  | .comment => text o .comment
  | .customGenre => text o .genre
  | .date => date o
  | .genre => genre
  | .trackNumber => numbering .track
  | .discNumber => numbering .disc
  | .cover => if o.findArtwork then cover else return ()
  | .freeform => freeform o
  | _ => return ()

end ReadTag

namespace TagList
variable {bounded : Bool}

def readTag (o : Options) (h : Header) : Collect StreamError bounded Unit := do
  let ((result, collected), window) ← ExceptT.lift (StateT.lift
    (((ReadTag.read o h.kind).runFrom (← get)).within (.ofSize h.dataSize)))
  set collected
  match result with
  | .ok () => pure ()
  | .error e =>
    if window.refused then Collect.note (.malformedTag h.kind e) else throw e
  Collect.read (Read.skip window.left)

def read (o : Options) (budget : Nat) : Collect StreamError bounded Unit := do
  if _ : Header.minSize ≤ budget then
    let h ← Collect.read (Header.read budget)
    readTag o h
    read o (h.leave budget)
  else
    Collect.read (Read.skip budget)
termination_by budget
decreasing_by exact h.leave_lt ‹_›

end TagList

end AudioAtoms

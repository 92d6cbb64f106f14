import AudioAtoms.Atom.Leaf
import AudioAtoms.Atom.SampleTable
import AudioAtoms.Codec.SampleEntry
import AudioAtoms.ReadError
import AudioAtoms.Tag.List

/-!
# Walking the atom tree

Atoms are visited in file order. Containers are entered, known atoms are read into the record, all
others are passed over. The handler atom says what its later siblings are about: the media
information is entered only for sound, and the tag list is read only in a directory of metadata.
The walk stops at the first audio data seen when the number of samples is known.
-/
namespace AudioAtoms

abbrev Walk := Collect ReadError false

namespace Walk

inductive Step where
  | proceed
  | stop
deriving DecidableEq, Repr

/-- The depth from which on containers are not entered. -/
def maxDepth : Nat := 32

variable {α : Type}

def lift (p : Collect StreamError false α) : Walk α := ExceptT.adapt ReadError.stream p

def read (p : Read false α) : Walk α := lift (Collect.read p)

def skip (n : Nat) : Walk Unit := read (Read.skip n)

def leaf (h : Header) (payload : Read true α) : Walk (Option α) := read (Leaf.read h payload)

def enter (child : Nat → Walk Step) (fixed dataSize : Nat) : Walk Step := do
  skip (min fixed dataSize)
  child (dataSize - min fixed dataSize)

def pass (h : Header) : Walk Step := do
  skip h.dataSize
  return .proceed

def sampleTable (h : Header) : Walk Step := do
  if let some runs ← leaf h (SampleRun.readTable h.dataSize) then
    Collect.modifyAudio fun a =>
      let upsampled := a.codec = .aacHe
      { a with
        samples := SampleRun.total upsampled runs
        durationsDoubled := runs.any (·.halved upsampled) }
  return .proceed

def aacEntry (o : Options) (h : Header) : Walk Step := do
  if let some (some stream) ← leaf h (SampleEntry.aac h.dataSize) then
    Collect.modifyAudio fun a =>
      let (rate, replicated) := stream.apply o.implicitReplication a.sampleRate
      { a with sampleRate := rate, codec := if replicated then .aacHe else .aac }
  return .proceed

def alacEntry (h : Header) : Walk Step := do
  if let some (some rate) ← leaf h (SampleEntry.alac h.dataSize) then
    Collect.modifyAudio fun a => { a with sampleRate := rate, codec := .alac }
  return .proceed

def chapterList (h : Header) : Walk Step := do
  if let some (some tick) ← leaf h Leaf.firstChapter then
    let trim := Leaf.samplesBefore tick (← get).track.audio.sampleRate
    Collect.note (.chapterTrim trim)
    Collect.modifyAudio fun a => { a with leadTrim := trim }
  return .proceed

def fileType (h : Header) : Walk Step := do
  let brand ← leaf h Leaf.brand
  modify fun c => { c with track := { c.track with brand := c.track.brand <|> brand } }
  return .proceed

/-- Audio data adds to the size of the audio. It ends the walk if the number of samples is known,
and is passed over otherwise. -/
def mediaData (h : Header) : Walk Step := do
  if h.dataSize = 0 then return .proceed
  Collect.modifyAudio fun a => { a with bytes := min (a.bytes + h.dataSize) (2 ^ 64 - 1) }
  if 0 < (← get).track.audio.samples then return .stop
  pass h

def tagList (o : Options) (h : Header) : Walk Step := do
  lift (TagList.read o h.dataSize)
  return .proceed

/-- Visits an atom that is not a handler atom, among siblings with the given handler. -/
def content (o : Options) (child : Nat → Walk Step) (handler : Option Handler) (h : Header) :
    Walk Step :=
  match h.kind with
  | .movie | .userData | .media | .sampleTable | .track => child h.dataSize
  | .metadata => enter child 4 h.dataSize
  | .sampleDescription => enter child 8 h.dataSize
  | .mediaInfo => if handler = some .sound then child h.dataSize else pass h
  | .tagList =>
    if handler = some .directory ∧ Header.minSize < h.dataSize then tagList o h else pass h
  | .timeToSample => sampleTable h
  | .aacEntry => aacEntry o h
  | .alacEntry => alacEntry h
  | .mediaData => mediaData h
  | .chapterList => chapterList h
  | .fileType => fileType h
  | _ => pass h

def atom (o : Options) (child : Nat → Walk Step) (handler : Option Handler) (h : Header) :
    Walk (Step × Option Handler) := do
  if h.kind = .handler then
    return (.proceed, ← leaf h Leaf.handler)
  else
    return (← content o child handler h, handler)

/-- Visits the atoms in `budget` octets. Octets too few for an atom are passed over. -/
def siblings (o : Options) (child : Nat → Walk Step) (handler : Option Handler) (budget : Nat) :
    Walk Step := do
  if _ : Header.minSize ≤ budget then
    let h ← read (Header.read budget)
    let (step, handler) ← atom o child handler h
    match step with
    | .stop => return .stop
    | .proceed => siblings o child handler (h.leave budget)
  else
    skip budget
    return .proceed
termination_by budget
decreasing_by exact h.leave_lt ‹_›

/-- Walks over `budget` octets with so many levels of containers left. -/
def forest (o : Options) : Nat → Nat → Walk Step
  | 0, _ => throw .tooDeep
  | levels + 1, budget => siblings o (forest o levels) none budget

def walk (o : Options) (budget : Nat) : Walk Step := forest o maxDepth budget

end Walk

end AudioAtoms

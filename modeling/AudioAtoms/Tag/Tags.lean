import AudioAtoms.Tag.Gain
import AudioAtoms.Atom.Kind

/-!
# Tags

What a file says about the music in it.
-/
namespace AudioAtoms

inductive ImageType where
  | jpeg
  | png
deriving DecidableEq, Repr

structure Artwork where
  type : ImageType
  pos : Nat
  size : Nat
deriving DecidableEq, Repr

/-- A number such as that of a track, and its text "m/n" if the file says how many there are. -/
structure Numbering where
  number : Option Nat := none
  text : Option String := none
deriving DecidableEq, Repr

structure Tags where
  title : Option String := none
  artist : Option String := none
  albumArtist : Option String := none
  album : Option String := none
  composer : Option String := none
  comment : Option String := none
  genre : Option String := none
  grouping : Option String := none
  date : Option String := none
  year : Option Nat := none
  track : Numbering := {}
  disc : Numbering := {}
  musicBrainzTrack : Option String := none
  artwork : Option Artwork := none
  gain : Gain := {}
deriving DecidableEq, Repr

inductive TextField where
  | title
  | artist
  | albumArtist
  | album
  | composer
  | comment
  | genre
  | grouping
  | date
  | musicBrainzTrack
deriving DecidableEq, Repr

inductive NumberField where
  | track
  | disc
deriving DecidableEq, Repr

def TextField.ofKind? : Kind → Option TextField
  | .title => some .title
  | .artist => some .artist
  | .albumArtist => some .albumArtist
  | .album => some .album
  | .composer => some .composer
  | .comment => some .comment
  | .customGenre => some .genre
  | .grouping => some .grouping
  | .date => some .date
  | _ => none

def NumberField.ofKind? : Kind → Option NumberField
  | .trackNumber => some .track
  | .discNumber => some .disc
  | _ => none

namespace Tags

def text (t : Tags) : TextField → Option String
  | .title => t.title
  | .artist => t.artist
  | .albumArtist => t.albumArtist
  | .album => t.album
  | .composer => t.composer
  | .comment => t.comment
  | .genre => t.genre
  | .grouping => t.grouping
  | .date => t.date
  | .musicBrainzTrack => t.musicBrainzTrack

def setText (t : Tags) (s : Option String) : TextField → Tags
  | .title => { t with title := s }
  | .artist => { t with artist := s }
  | .albumArtist => { t with albumArtist := s }
  | .album => { t with album := s }
  | .composer => { t with composer := s }
  | .comment => { t with comment := s }
  | .genre => { t with genre := s }
  | .grouping => { t with grouping := s }
  | .date => { t with date := s }
  | .musicBrainzTrack => { t with musicBrainzTrack := s }

def numbering (t : Tags) : NumberField → Numbering
  | .track => t.track
  | .disc => t.disc

def setNumbering (t : Tags) (n : Numbering) : NumberField → Tags
  | .track => { t with track := n }
  | .disc => { t with disc := n }

@[simp] theorem text_setText (t : Tags) (s : Option String) (f f' : TextField) :
    (t.setText s f).text f' = if f' = f then s else t.text f' := by
  cases f <;> cases f' <;> rfl

@[simp] theorem numbering_setNumbering (t : Tags) (n : Numbering) (f f' : NumberField) :
    (t.setNumbering n f).numbering f' = if f' = f then n else t.numbering f' := by
  cases f <;> cases f' <;> rfl

end Tags

end AudioAtoms

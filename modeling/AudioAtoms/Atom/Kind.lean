import AudioAtoms.Text.Utf8

/-!
# Atom kinds

An atom is named by four octets. The kinds that matter here have a name of their own, every other
code is kept as it is.
-/
namespace AudioAtoms

/-- Four octets that name an atom, a brand or a handler. -/
structure Code where
  a : UInt8
  b : UInt8
  c : UInt8
  d : UInt8
deriving DecidableEq, Repr

namespace Code

def toBytes (x : Code) : Bytes := [x.a, x.b, x.c, x.d]

def ofChars (a b c d : Char) : Code :=
  ⟨a.toNat.toUInt8, b.toNat.toUInt8, c.toNat.toUInt8, d.toNat.toUInt8⟩

/-- The first four octets of a payload; missing ones count as zero. -/
def ofBytes (bs : Bytes) : Code :=
  ⟨bs.getD 0 0, bs.getD 1 0, bs.getD 2 0, bs.getD 3 0⟩

@[simp] theorem ofBytes_toBytes (x : Code) : ofBytes x.toBytes = x := rfl

def hexText (b : UInt8) : String := String.ofList (Nat.toDigits 16 b.toNat)

/-- A code for people: its text if it has one, else its octets in base sixteen. -/
def text (x : Code) : String :=
  match Text.decode? x.toBytes with
  | some s => "'" ++ s ++ "'"
  | none => "[" ++ ", ".intercalate (x.toBytes.map hexText) ++ "]"

def decimalText (x : Code) : String :=
  "[" ++ ", ".intercalate (x.toBytes.map fun b => toString b.toNat) ++ "]"

end Code

inductive Kind where
  | movie | userData | track | media | mediaInfo | sampleTable | sampleDescription | metadata
  | tagList | handler | timeToSample | aacEntry | alacEntry | elementaryStream | mediaData
  | chapterList | fileType
  | title | artist | albumArtist | album | composer | comment | customGenre | grouping | date
  | genre | trackNumber | discNumber | cover | freeform
  | other (code : Code)
deriving DecidableEq, Repr

namespace Kind

def code : Kind → Code
  | movie => .ofChars 'm' 'o' 'o' 'v'
  | userData => .ofChars 'u' 'd' 't' 'a'
  | track => .ofChars 't' 'r' 'a' 'k'
  | media => .ofChars 'm' 'd' 'i' 'a'
  | mediaInfo => .ofChars 'm' 'i' 'n' 'f'
  | sampleTable => .ofChars 's' 't' 'b' 'l'
  | sampleDescription => .ofChars 's' 't' 's' 'd'
  | metadata => .ofChars 'm' 'e' 't' 'a'
  | tagList => .ofChars 'i' 'l' 's' 't'
  | handler => .ofChars 'h' 'd' 'l' 'r'
  | timeToSample => .ofChars 's' 't' 't' 's'
  | aacEntry => .ofChars 'm' 'p' '4' 'a'
  | alacEntry => .ofChars 'a' 'l' 'a' 'c'
  | elementaryStream => .ofChars 'e' 's' 'd' 's'
  | mediaData => .ofChars 'm' 'd' 'a' 't'
  | chapterList => .ofChars 'c' 'h' 'p' 'l'
  | fileType => .ofChars 'f' 't' 'y' 'p'
  | title => .ofChars '©' 'n' 'a' 'm'
  | artist => .ofChars '©' 'A' 'R' 'T'
  | albumArtist => .ofChars 'a' 'A' 'R' 'T'
  | album => .ofChars '©' 'a' 'l' 'b'
  | composer => .ofChars '©' 'w' 'r' 't'
  | comment => .ofChars '©' 'c' 'm' 't'
  | customGenre => .ofChars '©' 'g' 'e' 'n'
  | grouping => .ofChars '©' 'g' 'r' 'p'
  | date => .ofChars '©' 'd' 'a' 'y'
  | genre => .ofChars 'g' 'n' 'r' 'e'
  | trackNumber => .ofChars 't' 'r' 'k' 'n'
  | discNumber => .ofChars 'd' 'i' 's' 'k'
  | cover => .ofChars 'c' 'o' 'v' 'r'
  | freeform => .ofChars '-' '-' '-' '-'
  | other code => code

def named : List Kind :=
  [movie, userData, track, media, mediaInfo, sampleTable, sampleDescription, metadata, tagList,
   handler, timeToSample, aacEntry, alacEntry, elementaryStream, mediaData, chapterList, fileType,
   title, artist, albumArtist, album, composer, comment, customGenre, grouping, date, genre,
   trackNumber, discNumber, cover, freeform]

def ofCode (code : Code) : Kind :=
  (named.find? fun kind => kind.code = code).getD (other code)

theorem code_ofCode (code : Code) : (ofCode code).code = code := by
  unfold ofCode
  cases h : named.find? fun kind => kind.code = code with
  | none => rfl
  | some kind => simpa using List.find?_some h

def text : Kind → String
  | movie => "Movie"
  | userData => "UserData"
  | track => "Track"
  | media => "Media"
  | mediaInfo => "MediaInfo"
  | sampleTable => "SampleTable"
  | sampleDescription => "SampleDescription"
  | metadata => "Meta"
  | tagList => "MetaList"
  | handler => "Handler"
  | timeToSample => "TimeToSample"
  | aacEntry => "AudioSampleEntryMp4a"
  | alacEntry => "AudioSampleEntryAlac"
  | elementaryStream => "Esds"
  | mediaData => "MediaData"
  | chapterList => "ChapterList"
  | fileType => "FileType"
  | title => "TrackTitleTag"
  | artist => "ArtistTag"
  | albumArtist => "AlbumArtistTag"
  | album => "AlbumTag"
  | composer => "ComposerTag"
  | comment => "CommentTag"
  | customGenre => "CustomGenreTag"
  | grouping => "GroupingTag"
  | date => "DateTag"
  | genre => "GenreTag"
  | trackNumber => "TrackNumberTag"
  | discNumber => "DiskNumberTag"
  | cover => "CoverTag"
  | freeform => "FreeFormTag"
  | other code => "Other(" ++ code.decimalText ++ ")"

end Kind

end AudioAtoms

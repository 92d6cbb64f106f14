import AudioAtoms.Decimal.Shortest
import AudioAtoms.Text.Utf8
import AudioAtoms.Track

/-!
# Reports

A record as lines of text for people.
-/
namespace AudioAtoms.Report

def nameWidth : Nat := 18

def pair (name value : String) : String :=
  "|  " ++ String.ofList (name.toList.rightpad nameWidth ' ') ++ " " ++ value

def optional (name : String) (value : Option String) : List String :=
  (value.map (pair name)).toList

def number (name : String) (value : Option Nat) : List String :=
  optional name (value.map fun n => s!"{n}")

def heading (title : String) : String := "| // " ++ title ++ " //"

def audioLines (t : Track) : List String :=
  let a := t.audio
  [heading "Track", pair "Codec:" a.codec.text] ++
  optional "File Type:" (t.brand.map fun code => Text.decode code.toBytes) ++
  [pair "Sample Rate:" s!"{a.sampleRate} Hz",
   pair "Samples:" s!"{a.samples}",
   pair "Duration:" s!"{a.length} ms",
   pair "Bitrate:" (s!"{a.bitrate} kbit/s " ++ if a.variableRate then "(VBR)" else "(CBR)"),
   pair "Audio Size:" s!"{a.bytes} bytes",
   pair "Lead Trim:" s!"{a.leadTrim}",
   pair "Tail Trim:" s!"{a.tailTrim}"] ++
  if a.durationsDoubled then [pair "Upsampled:" "yes"] else []

def numbering (name : String) (n : Numbering) : List String :=
  optional name (n.text <|> n.number.map fun k => s!"{k}")

def gainLines (g : Gain) : List String :=
  optional "Track Gain:" (g.trackGain.map Binary32.text) ++
  optional "Track Peak:" (g.trackPeak.map Binary32.text) ++
  optional "Album Gain:" (g.albumGain.map Binary32.text) ++
  optional "Album Peak:" (g.albumPeak.map Binary32.text)

def tagLines (t : Tags) : List String :=
  [heading "Tags"] ++
  optional "Title:" t.title ++
  optional "Artist:" t.artist ++
  optional "Album Artist:" t.albumArtist ++
  optional "Album:" t.album ++
  optional "Composer:" t.composer ++
  optional "Grouping:" t.grouping ++
  optional "Genre:" t.genre ++
  optional "Date:" t.date ++
  number "Year:" t.year ++
  numbering "Track:" t.track ++
  numbering "Disc:" t.disc ++
  optional "Comment:" t.comment ++
  optional "MusicBrainz Track:" t.musicBrainzTrack ++
  gainLines t.gain

def imageText : ImageType → String
  | .jpeg => "Jpeg"
  | .png => "Png"

def artworkLines (art : Artwork) : List String :=
  ["|", heading "Album Art", pair "Type:" (imageText art.type), pair "Position:" s!"{art.pos}",
   pair "Size:" s!"{art.size} bytes"]

def trackLines (t : Track) : List String :=
  audioLines t ++ ["|"] ++ tagLines t.tags ++ (t.tags.artwork.map artworkLines).getD []

def pathLines (path : String) : List String := ["Input Path: " ++ path, "|"]

def fileLines (path : String) (track : Option Track) : List String :=
  pathLines path ++ (track.map trackLines).getD ["| FAIL"] ++ [""]

end AudioAtoms.Report

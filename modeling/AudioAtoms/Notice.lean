import AudioAtoms.Atom.Kind
import AudioAtoms.Stream.Error
import AudioAtoms.Text.Quoted

/-!
# Notices

What a reader remarks on while it works. Notices never change a result.
-/
namespace AudioAtoms

inductive Notice where
  | wideSize (code : Code) (size : Nat)
  | shortSize (code : Code) (size : Nat)
  | malformedAtom (kind : Kind) (error : StreamError)
  | malformedTag (kind : Kind) (error : StreamError)
  | chapterTrim (samples : Nat)
  | handler (code : Code)
  | brand (code : Code)
  | entriesCut (declared : Nat)
  | noDecoderConfig (found : UInt8)
  | noDecoderSpecific (found : UInt8)
  | descriptorsCut (error : StreamError)
  | gapless (lead tail : Nat)
  | noRoom (size : Nat)
  | malformedGain (key value : String)
  | noAudioTrack (samples sampleRate audioBytes : Nat)
  | unknownCodec
  | invalidLength
  | summary (bitrate sampleRate length : Nat)
deriving DecidableEq, Repr

namespace Notice

def isWarning : Notice → Bool
  | wideSize .. | shortSize .. | malformedAtom .. | malformedTag .. | entriesCut ..
  | noDecoderConfig .. | noDecoderSpecific .. | noAudioTrack .. | unknownCodec | invalidLength =>
    true
  | chapterTrim .. | handler .. | brand .. | descriptorsCut .. | gapless .. | noRoom ..
  | malformedGain .. | summary .. => false

def text : Notice → String
  | wideSize code size => s!"isomp4: skipping {code.text} atom with unsupported 64-bit size {size}"
  | shortSize code size => s!"isomp4: atom {code.text} size {size} is invalid"
  | malformedAtom kind error => s!"isomp4: skipping malformed {kind.text} atom: {error.message}"
  | malformedTag kind error => s!"isomp4: skipping malformed {kind.text} tag: {error.message}"
  | chapterTrim samples => s!"isomp4: chapter lead trim {samples}"
  | handler code => s!"isomp4: handler {code.text}"
  | brand code => s!"isomp4: file type {code.text}"
  | entriesCut declared => s!"isomp4: stts entry count {declared} exceeds atom size"
  | noDecoderConfig found => s!"isomp4: expected decoder config descriptor, got desc={found}"
  | noDecoderSpecific found => s!"isomp4: expected decoder specific descriptor, got desc={found}"
  | descriptorsCut error => s!"isomp4: esds descriptors are incomplete: {error.message}"
  | gapless lead tail => s!"isomp4: lead_trim {lead}, tail_trim {tail}"
  | noRoom size => s!"scratch: no room for a {size} byte string"
  | malformedGain key value => s!"replaygain: ignoring malformed value for {key}: {Text.quote value}"
  | noAudioTrack samples sampleRate audioBytes =>
    s!"isomp4: no audio track found (samples={samples}, frequency={sampleRate}, " ++
      s!"filesize={audioBytes})"
  | unknownCodec => "isomp4: not an aac or alac file"
  | invalidLength => "isomp4: track length is invalid"
  | summary bitrate sampleRate length =>
    s!"isomp4: bitrate {bitrate} kbit/s, frequency {sampleRate} Hz, length {length} ms"

def line (notice : Notice) : String :=
  (if notice.isWarning then "WARN " else "DEBUG ") ++ notice.text

end Notice

end AudioAtoms

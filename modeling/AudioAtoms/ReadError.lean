import AudioAtoms.Stream.Error

/-!
# Read errors

Why the record of a file could not be read.
-/
namespace AudioAtoms

inductive ReadError where
  | stream (error : StreamError)
  | noAudioTrack
  | unknownCodec
  | invalidLength
  | lengthUnknown
  | tooDeep
deriving DecidableEq, Repr

namespace ReadError

inductive Class where
  | stream
  | malformed
  | unsupported
  | limit
deriving DecidableEq, Repr

def kind : ReadError → Class
  | stream _ => .stream
  | noAudioTrack | unknownCodec | invalidLength => .malformed
  | lengthUnknown => .unsupported
  | tooDeep => .limit

def stream? : ReadError → Option StreamError
  | stream e => some e
  | _ => none

def detail : ReadError → String
  | stream e => e.message
  | noAudioTrack => "isomp4: no audio track found"
  | unknownCodec => "isomp4: not an aac or alac file"
  | invalidLength => "isomp4: track length is invalid"
  | lengthUnknown => "isomp4: source length is unknown"
  | tooDeep => "isomp4: atoms are nested too deeply"

def message (e : ReadError) : String :=
  match e.kind with
  | .stream => e.detail
  | .malformed => "malformed stream: " ++ e.detail
  | .unsupported => "unsupported feature: " ++ e.detail
  | .limit => "limit reached: " ++ e.detail

end ReadError

end AudioAtoms

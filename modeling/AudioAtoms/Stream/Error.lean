/-!
# Stream errors

What can go wrong while octets are fetched, skipped or sought.
-/
namespace AudioAtoms

inductive StreamError where
  | underrun
  | outOfBounds
  | endOfStream
  | skipTooLarge
  | badSeek
  | sourceFailure
  | seekFailure
deriving DecidableEq, Repr

namespace StreamError

inductive Class where
  | unexpectedEnd
  | invalidInput
  | device
deriving DecidableEq, Repr

def kind : StreamError → Class
  | underrun | outOfBounds | endOfStream => .unexpectedEnd
  | skipTooLarge | badSeek => .invalidInput
  | sourceFailure | seekFailure => .device

def message : StreamError → String
  | underrun => "buffer underrun"
  | outOfBounds => "out of bounds"
  | endOfStream => "end of stream"
  | skipTooLarge => "skip too large"
  | badSeek => "invalid seek to a negative or overflowing position"
  | sourceFailure => "source failure"
  | seekFailure => "seek failure"

end StreamError

end AudioAtoms

import AudioAtoms.CommandLine

/-!
# The program

Reads the files named on the command line and prints the reports on them.
-/
namespace AudioAtoms

def usage : String :=
  "usage: [--verbose] [--no-implicit-sbr] [--no-album-art] [--buffer-len BYTES] INPUT..."

/-- The source behind an open handle. What cannot be read is taken for a directory. -/
def sourceOf (handle : IO.FS.Handle) : IO Source := do
  try
    return .ofFile (← handle.readBinToEnd).data
  catch _ => return .ofDirectory

def openSource? (path : String) : IO (Option Source) := do
  try
    return some (← sourceOf (← IO.FS.Handle.mk path .read))
  catch _ => return none

def printReports (s : Settings) : List String → IO Nat
  | [] => return 0
  | path :: rest => do
    let outcome := CommandLine.Outcome.ofSource? s (← openSource? path)
    for line in outcome.lines path do
      IO.println line
    if outcome = .halt then
      IO.eprintln "no room for the read ahead"
      return outcome.code
    else return max outcome.code (← printReports s rest)

end AudioAtoms

open AudioAtoms in
def main (arguments : List String) : IO UInt32 := do
  match CommandLine.parse arguments with
  | .misuse =>
    IO.eprintln usage
    return 2
  | .help =>
    IO.println usage
    return 0
  | .version =>
    IO.println "1.0"
    return 0
  | .report s => return (← printReports s s.paths).toUInt32
